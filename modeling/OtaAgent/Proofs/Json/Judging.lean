import Mathlib.Data.List.Count
import OtaAgent.Json.Reader
import OtaAgent.Proofs.Table

set_option autoImplicit false

namespace OtaAgent.Json

/-- All strings and names in the document are texts, all numbers are in range, and no more than
`depth` arrays and objects stand in one another. -/
inductive Doc.Fits : Nat → Doc → Prop
  | null (depth : Nat) : Fits depth .null
  | bool (depth : Nat) (b : Bool) : Fits depth (.bool b)
  | number (depth : Nat) (n : Numeral) (inRange : n.inRange) : Fits depth (.number n)
  | string (depth : Nat) (s : String) : Fits depth (.string (some s))
  | array (depth : Nat) (items : List Doc) (each : ∀ item ∈ items, Fits depth item) :
      Fits (depth + 1) (.array items)
  | object (depth : Nat) (members : List (Option String × Doc))
      (named : ∀ m ∈ members, m.1.isSome) (each : ∀ m ∈ members, Fits depth m.2) :
      Fits (depth + 1) (.object members)

theorem Numeral.isSome_toJson? (n : Numeral) : n.toJson?.isSome ↔ n.inRange := by
  unfold toJson?
  split
  · rename_i inRange
    refine iff_of_true ?_ inRange
    dsimp only
    split
    · rfl
    · split <;> rfl
  · rename_i outside
    exact iff_of_false nofun outside

theorem isSome_itemsToJson? {depth : Nat} {items : List Doc} :
    (itemsToJson? depth items).isSome ↔ ∀ item ∈ items, (item.toJsonAt? depth).isSome := by
  induction items with
  | nil => simp [itemsToJson?]
  | cons item items ih =>
    rw [List.forall_mem_cons, ← ih, itemsToJson?]
    cases item.toJsonAt? depth <;> cases itemsToJson? depth items <;> simp

theorem isSome_membersToJson? {depth : Nat} {members : List (Option String × Doc)} :
    (membersToJson? depth members).isSome ↔
      ∀ m ∈ members, m.1.isSome ∧ (m.2.toJsonAt? depth).isSome := by
  induction members with
  | nil => simp [membersToJson?]
  | cons m members ih =>
    obtain ⟨key, item⟩ := m
    rw [List.forall_mem_cons, ← ih, membersToJson?]
    cases key <;> cases item.toJsonAt? depth <;> cases membersToJson? depth members <;> simp

/-- A document has a value exactly if it fits. -/
theorem Doc.isSome_toJsonAt? (depth : Nat) (d : Doc) :
    (d.toJsonAt? depth).isSome ↔ d.Fits depth := by
  -- Items and members have one level less to go.
  induction depth using Nat.strongRecOn generalizing d with
  | ind depth ih =>
    cases d with
    | null => exact iff_of_true rfl (.null depth)
    | bool b => exact iff_of_true rfl (.bool depth b)
    | number n =>
      exact n.isSome_toJson?.trans ⟨.number depth n, fun | .number _ _ inRange => inRange⟩
    | string s =>
      cases s with
      | some s => exact iff_of_true rfl (.string depth s)
      | none => exact iff_of_false nofun nofun
    | array items =>
      cases depth with
      | zero => exact iff_of_false nofun nofun
      | succ depth =>
        have inner (item : Doc) := ih depth (Nat.lt_succ_self depth) item
        rw [toJsonAt?, Option.isSome_map, isSome_itemsToJson?]
        exact ⟨fun each => .array depth items fun item there => (inner item).mp (each item there),
          fun | .array _ _ each => fun item there => (inner item).mpr (each item there)⟩
    | object members =>
      cases depth with
      | zero => exact iff_of_false nofun nofun
      | succ depth =>
        have inner (item : Doc) := ih depth (Nat.lt_succ_self depth) item
        rw [toJsonAt?, Option.isSome_map, isSome_membersToJson?]
        exact ⟨fun each => .object depth members (fun m there => (each m there).1)
            fun m there => (inner m.2).mp (each m there).2,
          fun | .object _ _ named each => fun m there =>
            ⟨named m there, (inner m.2).mpr (each m there)⟩⟩

theorem Numeral.member?_toJson? {n : Numeral} {v : Json} (read : n.toJson? = some v)
    (name : String) : v.member? name = none := by
  unfold toJson? at read
  split at read
  · dsimp only at read
    split at read
    · cases read
      rfl
    · split at read <;> cases read <;> rfl
  · cases read

/-- Only the value of an object has members. -/
theorem Doc.eq_object_of_member? {d : Doc} {v m : Json} {name : String}
    (read : d.toJson? = some v) (there : v.member? name = some m) :
    ∃ members, d = .object members := by
  cases d with
  | object members => exact ⟨members, rfl⟩
  | null | bool b =>
    cases read
    cases there
  | number n => cases (Numeral.member?_toJson? read name).symm.trans there
  | string s =>
    obtain ⟨s, -, rfl⟩ := Option.map_eq_some_iff.mp read
    cases there
  | array items =>
    obtain ⟨values, -, rfl⟩ := Option.map_eq_some_iff.mp read
    cases there

theorem docMember?_cons (m : Option String × Doc) (members : List (Option String × Doc))
    (name : String) :
    docMember? (m :: members) name =
      if m.1 = some name then some m.2 else docMember? members name := by
  unfold docMember?
  rw [List.find?_cons]
  by_cases same : m.1 = some name
  · simp [same]
  · rw [if_neg same, beq_eq_false_iff_ne.mpr same]

theorem docMember?_eq_none {members : List (Option String × Doc)} {name : String}
    (absent : (members.map (·.1)).count (some name) = 0) : docMember? members name = none := by
  rw [docMember?, Option.map_eq_none_iff, List.find?_eq_none]
  intro m there same
  rw [List.count_eq_zero] at absent
  exact absent (List.mem_map.mpr ⟨m, there, eq_of_beq same⟩)

/-- Where a name stands once, the value has under it what the document has. -/
theorem get?_membersToJson? {depth : Nat} {members : List (Option String × Doc)}
    {values : List (String × Json)} (read : membersToJson? depth members = some values)
    {name : String} (once : (members.map (·.1)).count (some name) ≤ 1) :
    Table.get? values.reverse name = (docMember? members name).bind (·.toJsonAt? depth) := by
  induction members generalizing values with
  | nil =>
    cases read
    rfl
  | cons m members ih =>
    obtain ⟨key, item⟩ := m
    simp only [membersToJson?, Option.bind_eq_bind, Option.bind_eq_some_iff, Option.pure_def,
      Option.some.injEq] at read
    obtain ⟨key, rfl, v, readItem, rest, readRest, rfl⟩ := read
    rw [List.map_cons, List.count_cons] at once
    rw [List.reverse_cons, Table.get?_append, ih readRest (by omega), docMember?_cons]
    by_cases same : key = name
    · subst same
      have absent : docMember? members key = none := docMember?_eq_none (by simpa using once)
      simp [absent, Table.get?, readItem]
    · simp [same, Ne.symm same, Table.get?]

theorem memberNames?_eq_some {members : List (Option String × Doc)} {given : List String}
    (names : memberNames? members = some given) : members.map (·.1) = given.map some := by
  unfold memberNames? at names
  induction members generalizing given with
  | nil =>
    cases names
    rfl
  | cons m members ih =>
    simp only [List.mapM_cons, Option.bind_eq_bind, Option.bind_eq_some_iff, Option.pure_def,
      Option.some.injEq] at names
    obtain ⟨name, named, rest, restNamed, rfl⟩ := names
    rw [List.map_cons, List.map_cons, named, ih restNamed]

theorem fields?_object {members : List (Option String × Doc)} {names : List String} {least : Nat}
    {fields : List (Option Doc)} (read : fields? names least (.object members) = some fields) :
    (∀ name ∈ names, (members.map (·.1)).count (some name) ≤ 1) ∧
      fields = names.map (docMember? members) := by
  simp only [fields?, Option.bind_eq_bind, Option.bind_eq_some_iff, Option.pure_def] at read
  obtain ⟨given, named, read⟩ := read
  split at read
  · rename_i once
    refine ⟨fun name known => ?_, (Option.some.inj read).symm⟩
    rw [memberNames?_eq_some named, List.count_map_of_injective _ _ fun _ _ => Option.some.inj]
    simpa using List.all_eq_true.mp once name known
  · cases read

/-- What is read as a field of a record is the member of the value as well. -/
theorem member?_toJson? {members : List (Option String × Doc)} {v : Json}
    (read : (Doc.object members).toJson? = some v) {name : String}
    (once : (members.map (·.1)).count (some name) ≤ 1) :
    v.member? name = (docMember? members name).bind (·.toJsonAt? (maxDepth - 1)) := by
  obtain ⟨values, readMembers, rfl⟩ := Option.map_eq_some_iff.mp read
  rw [Json.ofMembers, member?, Table.get?_ofList, get?_membersToJson? readMembers once]
  rfl

end OtaAgent.Json
