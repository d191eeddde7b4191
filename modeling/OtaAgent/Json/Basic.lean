import OtaAgent.Table

set_option autoImplicit false

namespace OtaAgent

inductive Json
  | null
  | bool (b : Bool)
  /-- `mantissa` divided by ten to the power of `places`. -/
  | number (mantissa : Int) (places : Nat)
  | string (s : String)
  | array (items : List Json)
  | object (members : List (String × Json))
  deriving Repr, BEq, Inhabited

namespace Json

/-- The object with the given members in the order of their names; of several with one name the
last. -/
def ofMembers (members : List (String × Json)) : Json := object (Table.ofList members)

def ofInt (n : Int) : Json := number n 0

def ofOption {α : Type} (f : α → Json) : Option α → Json
  | some a => f a
  | none => null

def strings (l : List String) : Json := array (l.map string)

def member? (key : String) : Json → Option Json
  | object members => Table.get? members key
  | _ => none

def string? : Json → Option String
  | string s => some s
  | _ => none

def bool? : Json → Option Bool
  | bool b => some b
  | _ => none

end Json
end OtaAgent
