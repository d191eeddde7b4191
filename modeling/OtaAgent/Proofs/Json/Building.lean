import OtaAgent.Json.Doc
import OtaAgent.Proofs.Json.Lexing

set_option autoImplicit false

namespace OtaAgent.Json

mutual

def toDoc : Json → Doc
  | .null => .null
  | .bool b => .bool b
  | .number mantissa places => .number (numeral mantissa places)
  | .string s => .string (some s)
  | .array items => .array (itemDocs items)
  | .object members => .object (memberDocs members)

def itemDocs : List Json → List Doc
  | [] => []
  | v :: items => toDoc v :: itemDocs items

def memberDocs : List (String × Json) → List (Option String × Doc)
  | [] => []
  | (key, v) :: members => (some key, toDoc v) :: memberDocs members

end

theorem memberDocs_eq_map (members : List (String × Json)) :
    memberDocs members = members.map fun m => (some m.1, m.2.toDoc) := by
  induction members with
  | nil => rfl
  | cons m members ih => rw [memberDocs, ih, List.map_cons]

theorem exists_of_mem_memberDocs {members : List (String × Json)} {name : String} {d : Doc}
    (there : (some name, d) ∈ memberDocs members) : ∃ v, (name, v) ∈ members ∧ v.toDoc = d := by
  rw [memberDocs_eq_map] at there
  obtain ⟨⟨key, v⟩, inside, same⟩ := List.mem_map.mp there
  cases same
  exact ⟨v, inside, rfl⟩

namespace Doc

variable {p next : Progress} {token : Token} {ts : List Token}

theorem build?_cons (advanced : advance? p token = some next) :
    build? p (token :: ts) = build? next ts := by
  rw [build?, advanced]

theorem exists_tokens (v : Json) :
    ∃ token rest, tokens v = token :: rest ∧ token ≠ .endArray := by
  cases v with
  | _ => exact ⟨_, _, rfl, nofun⟩

/-- The first item of an array is read like any value. -/
theorem build?_itemOrEnd (frames : List Frame) (v : Json) :
    build? ⟨.itemOrEnd, frames⟩ (tokens v ++ ts) = build? ⟨.value, frames⟩ (tokens v ++ ts) := by
  obtain ⟨token, rest, shape, notEnd⟩ := exists_tokens v
  rw [shape, List.cons_append, build?, build?]
  cases token <;> first | rfl | exact absurd rfl notEnd

mutual

/-- The tokens of a value are read as its document. -/
theorem build?_tokens (v : Json) (frames : List Frame) (ts : List Token) :
    build? ⟨.value, frames⟩ (tokens v ++ ts) = build? (place (toDoc v) frames) ts := by
  match v with
  | .null => rfl
  | .bool _ => rfl
  | .number _ _ => rfl
  | .string _ => rfl
  | .array [] => rfl
  | .array (v :: items) =>
    have inner := build?_itemTokens (v :: items) [] frames ts nofun
    rw [tokens, List.cons_append, List.append_assoc]
    refine (build?_cons rfl).trans (Eq.trans ?_ inner)
    cases items with
    | nil => exact build?_itemOrEnd _ v
    | cons w items =>
      rw [itemTokens, List.append_assoc, List.append_assoc]
      exact build?_itemOrEnd _ v
  | .object [] => rfl
  | .object ((key, v) :: members) =>
    have inner := build?_memberTokens ((key, v) :: members) [] frames ts nofun
    rw [tokens, List.cons_append, List.append_assoc]
    refine (build?_cons rfl).trans (Eq.trans ?_ inner)
    cases members <;> rfl

theorem build?_itemTokens (items : List Json) (done : List Doc) (frames : List Frame)
    (ts : List Token) (full : items ≠ []) :
    build? ⟨.value, .array done :: frames⟩ (itemTokens items ++ .endArray :: ts) =
      build? (place (.array (done.reverse ++ itemDocs items)) frames) ts := by
  match items with
  | [] => exact absurd rfl full
  | [v] =>
    have first := build?_tokens v (.array done :: frames) (.endArray :: ts)
    refine first.trans ((build?_cons rfl).trans ?_)
    rw [List.reverse_cons]
    rfl
  | v :: w :: items =>
    have first := build?_tokens v (.array done :: frames)
      (.comma :: (itemTokens (w :: items) ++ .endArray :: ts))
    have rest := build?_itemTokens (w :: items) (toDoc v :: done) frames ts nofun
    rw [itemTokens, List.append_assoc]
    refine first.trans ((build?_cons rfl).trans (rest.trans ?_))
    rw [List.reverse_cons, List.append_assoc]
    rfl

theorem build?_memberTokens (members : List (String × Json)) (done : List (Option String × Doc))
    (frames : List Frame) (ts : List Token) (full : members ≠ []) :
    build? ⟨.key done, frames⟩ (memberTokens members ++ .endObject :: ts) =
      build? (place (.object (done.reverse ++ memberDocs members)) frames) ts := by
  match members with
  | [] => exact absurd rfl full
  | [(key, v)] =>
    have value := build?_tokens v (.object done (some key) :: frames) (.endObject :: ts)
    refine (build?_cons rfl).trans ((build?_cons rfl).trans (value.trans
      ((build?_cons rfl).trans ?_)))
    rw [List.reverse_cons]
    rfl
  | (key, v) :: m :: members =>
    have value := build?_tokens v (.object done (some key) :: frames)
      (.comma :: (memberTokens (m :: members) ++ .endObject :: ts))
    have rest := build?_memberTokens (m :: members) ((some key, toDoc v) :: done) frames ts nofun
    rw [memberTokens, List.cons_append, List.cons_append, List.append_assoc]
    refine (build?_cons rfl).trans ((build?_cons rfl).trans (value.trans
      ((build?_cons rfl).trans (rest.trans ?_))))
    rw [List.reverse_cons, List.append_assoc]
    rfl

end

theorem parse?_of_lex? {s : String} {v : Json} (lexed : lex? s.toList = some (tokens v)) :
    parse? s = some v.toDoc := by
  have built := build?_tokens v [] []
  rw [List.append_nil] at built
  rw [parse?, lexed, Option.bind_some, built]
  rfl

/-- A value that is printed over several lines is read back as its document. -/
theorem parse?_pretty (v : Json) : parse? v.pretty = some v.toDoc := parse?_of_lex? (lex?_pretty v)

/-- A value that is printed on one line is read back as its document. -/
theorem parse?_compact (v : Json) : parse? v.compact = some v.toDoc :=
  parse?_of_lex? (lex?_compact v)

end Doc
end OtaAgent.Json
