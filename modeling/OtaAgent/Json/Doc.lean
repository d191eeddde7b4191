import OtaAgent.Json.Basic
import OtaAgent.Json.Token

set_option autoImplicit false

namespace OtaAgent.Json

inductive Doc
  | null
  | bool (b : Bool)
  | number (n : Numeral)
  | string (s : Option String)
  | array (items : List Doc)
  | object (members : List (Option String × Doc))
  deriving Repr, Inhabited

namespace Doc

/-- An array or object that is not closed yet; what it holds so far stands last first. -/
inductive Frame
  | array (items : List Doc)
  | object (members : List (Option String × Doc)) (key : Option String)

/-- What may come next. -/
inductive Expect
  | value
  /-- A value, or the end of an array without items. -/
  | itemOrEnd
  /-- A comma, or the end of the innermost frame. -/
  | commaOrEnd
  | key (members : List (Option String × Doc))
  | keyOrEnd
  | colon (members : List (Option String × Doc)) (key : Option String)
  | nothing (done : Doc)

structure Progress where
  expect : Expect
  frames : List Frame

def place (v : Doc) : List Frame → Progress
  | [] => ⟨.nothing v, []⟩
  | .array items :: frames => ⟨.commaOrEnd, .array (v :: items) :: frames⟩
  | .object members key :: frames => ⟨.commaOrEnd, .object ((key, v) :: members) none :: frames⟩

def begin? (frames : List Frame) : Token → Option Progress
  | .null => some (place .null frames)
  | .bool b => some (place (.bool b) frames)
  | .number n => some (place (.number n) frames)
  | .string s => some (place (.string s) frames)
  | .beginArray => some ⟨.itemOrEnd, .array [] :: frames⟩
  | .beginObject => some ⟨.keyOrEnd, frames⟩
  | _ => none

def advance? (p : Progress) (token : Token) : Option Progress :=
  match p.expect, token, p.frames with
  | .value, token, frames => begin? frames token
  | .itemOrEnd, .endArray, .array items :: frames => some (place (.array items.reverse) frames)
  | .itemOrEnd, token, frames => begin? frames token
  | .commaOrEnd, .comma, .array items :: frames => some ⟨.value, .array items :: frames⟩
  | .commaOrEnd, .comma, .object members _ :: frames => some ⟨.key members, frames⟩
  | .commaOrEnd, .endArray, .array items :: frames => some (place (.array items.reverse) frames)
  | .commaOrEnd, .endObject, .object members _ :: frames =>
    some (place (.object members.reverse) frames)
  | .key members, .string key, frames => some ⟨.colon members key, frames⟩
  | .keyOrEnd, .string key, frames => some ⟨.colon [] key, frames⟩
  | .keyOrEnd, .endObject, frames => some (place (.object []) frames)
  | .colon members key, .colon, frames => some ⟨.value, .object members key :: frames⟩
  | _, _, _ => none

def build? : Progress → List Token → Option Doc
  | ⟨.nothing v, _⟩, [] => some v
  | _, [] => none
  | p, token :: tokens =>
    match advance? p token with
    | some p => build? p tokens
    | none => none

def parse? (s : String) : Option Doc := (lex? s.toList).bind (build? ⟨.value, []⟩)

end Doc

/-- Arrays and objects in one another at most this deep make a value. -/
def maxDepth : Nat := 127

mutual

/-- The value that a document means, with at most `depth` arrays and objects in one another. -/
def Doc.toJsonAt? : Nat → Doc → Option Json
  | _, .null => some .null
  | _, .bool b => some (.bool b)
  | _, .number n => n.toJson?
  | _, .string s => s.map .string
  | 0, .array _ => none
  | depth + 1, .array items => (itemsToJson? depth items).map .array
  | 0, .object _ => none
  | depth + 1, .object members => (membersToJson? depth members).map .ofMembers

def itemsToJson? : Nat → List Doc → Option (List Json)
  | _, [] => some []
  | depth, item :: items => do
    let v ← item.toJsonAt? depth
    return v :: (← itemsToJson? depth items)

def membersToJson? : Nat → List (Option String × Doc) → Option (List (String × Json))
  | _, [] => some []
  | depth, (key, item) :: members => do
    let key ← key
    let v ← item.toJsonAt? depth
    return (key, v) :: (← membersToJson? depth members)

end

def Doc.toJson? (d : Doc) : Option Json := d.toJsonAt? maxDepth

def parse? (s : String) : Option Json := (Doc.parse? s).bind Doc.toJson?

end OtaAgent.Json
