import OtaAgent.Json.Doc

set_option autoImplicit false

namespace OtaAgent.Json

/-- The names of the members, if all of them are texts. -/
def memberNames? (members : List (Option String × Doc)) : Option (List String) :=
  members.mapM (·.1)

def docMember? (members : List (Option String × Doc)) (name : String) : Option Doc :=
  (members.find? (·.1 == some name)).map (·.2)

/-- The fields `names` of a record, those that are absent as `none`. As an array the record has at
least `least` fields. -/
def fields? (names : List String) (least : Nat) : Doc → Option (List (Option Doc))
  | .object members => do
    let given ← memberNames? members
    if names.all (given.count · ≤ 1) then return names.map (docMember? members) else none
  | .array items =>
    if least ≤ items.length ∧ items.length ≤ names.length then
      some (items.map some ++ List.replicate (names.length - items.length) none)
    else none
  | _ => none

def text? : Doc → Option String
  | .string s => s
  | _ => none

def flag? : Doc → Option Bool
  | .bool b => some b
  | _ => none

/-- A whole number of 64 bits, written as digits alone. -/
def count? : Doc → Option Nat
  | .number ⟨false, digits, none, none⟩ =>
    let n := Text.ofDigits 10 digits
    if n < Nat.pow 2 64 then some n else none
  | _ => none

variable {α : Type}

def required? (read? : Doc → Option α) : Option Doc → Option α
  | some d => read? d
  | none => none

/-- A field that may be absent or `null`. -/
def optional? (read? : Doc → Option α) : Option Doc → Option (Option α)
  | none => some none
  | some .null => some none
  | some d => (read? d).map some

/-- A field that may be absent, and then is `value`. -/
def default? (value : α) (read? : Doc → Option α) : Option Doc → Option α
  | none => some value
  | some d => read? d

def list? (read? : Doc → Option α) : Doc → Option (List α)
  | .array items => items.mapM read?
  | _ => none

def pair? (read? : Doc → Option α) (m : Option String × Doc) : Option (String × α) := do
  return (← m.1, ← read? m.2)

/-- The members of an object under their names; of several with one name the last. -/
def table? (read? : Doc → Option α) : Doc → Option (Table α)
  | .object members => (members.mapM (pair? read?)).map Table.ofList
  | _ => none

end OtaAgent.Json
