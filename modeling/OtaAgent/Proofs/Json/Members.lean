import Mathlib.Data.List.Perm.Basic
import OtaAgent.Proofs.Json.Building
import OtaAgent.Proofs.Json.Judging

set_option autoImplicit false

namespace OtaAgent.Json

variable {members members' : List (Option String × Doc)}

section Fields

variable {names : List String} {least : Nat} {name : String}

/-- Members with the names `given` can be read for the fields `names`. -/
structure Legible (names : List String) (given : List (Option String)) : Prop where
  texts : ∀ name ∈ given, name.isSome
  once : ∀ name ∈ names, given.count (some name) ≤ 1

theorem Legible.perm {given given' : List (Option String)} (perm : given.Perm given') :
    Legible names given ↔ Legible names given' := by
  constructor
  · exact fun legible => ⟨fun name there => legible.texts name (perm.mem_iff.mpr there),
      fun name known => perm.count_eq (some name) ▸ legible.once name known⟩
  · exact fun legible => ⟨fun name there => legible.texts name (perm.mem_iff.mp there),
      fun name known => (perm.count_eq (some name)).symm ▸ legible.once name known⟩

/-- A name beside those that are given is legible if it is not given already or not known. -/
theorem Legible.cons {given : List (Option String)}
    (fresh : name ∈ names → some name ∉ given) :
    Legible names (some name :: given) ↔ Legible names given := by
  constructor
  · exact fun legible => ⟨fun other there => legible.texts other (List.mem_cons_of_mem _ there),
      fun known inside => Nat.le_trans List.count_le_count_cons (legible.once known inside)⟩
  · intro legible
    refine ⟨List.forall_mem_cons.mpr ⟨rfl, legible.texts⟩, fun known inside => ?_⟩
    by_cases same : name = known
    · subst same
      have absent := List.count_eq_zero_of_not_mem (fresh inside)
      simp [absent]
    · rw [List.count_cons_of_ne fun equal => same (Option.some.inj equal)]
      exact legible.once known inside

theorem memberNames?_of_texts (texts : ∀ name ∈ members.map (·.1), name.isSome) :
    ∃ given, memberNames? members = some given := by
  induction members with
  | nil => exact ⟨[], rfl⟩
  | cons m members ih =>
    rw [List.map_cons, List.forall_mem_cons] at texts
    obtain ⟨name, named⟩ := Option.isSome_iff_exists.mp texts.1
    obtain ⟨given, rest⟩ := ih texts.2
    rw [memberNames?] at rest
    exact ⟨name :: given, by simp [memberNames?, named, rest]⟩

theorem fields?_of_legible (legible : Legible names (members.map (·.1))) :
    fields? names least (.object members) = some (names.map (docMember? members)) := by
  obtain ⟨given, named⟩ := memberNames?_of_texts legible.texts
  have once (name : String) (known : name ∈ names) : given.count name ≤ 1 := by
    have once := legible.once name known
    rwa [memberNames?_eq_some named,
      List.count_map_of_injective _ _ fun _ _ => Option.some.inj] at once
  simpa [fields?, named] using once

theorem fields?_of_not_legible (illegible : ¬ Legible names (members.map (·.1))) :
    fields? names least (.object members) = none := by
  rw [Option.eq_none_iff_forall_ne_some]
  intro fields read
  obtain ⟨given, named, -⟩ := Option.bind_eq_some_iff.mp read
  refine illegible ⟨?_, (fields?_object read).1⟩
  rw [memberNames?_eq_some named]
  simp

/-- Where a name stands once, it does not matter among which other members. -/
theorem docMember?_eq_some_iff (once : (members.map (·.1)).count (some name) ≤ 1) {d : Doc} :
    docMember? members name = some d ↔ (some name, d) ∈ members := by
  induction members with
  | nil => exact iff_of_false nofun List.not_mem_nil
  | cons m members ih =>
    obtain ⟨key, item⟩ := m
    rw [List.map_cons, List.count_cons] at once
    rw [docMember?_cons, List.mem_cons, ← ih (by omega), Prod.mk.injEq]
    by_cases same : key = some name
    · subst same
      have absent : docMember? members name = none := docMember?_eq_none (by simpa using once)
      simp [absent, eq_comm]
    · simp [same, Ne.symm same]

theorem fields?_congr
    (legible : Legible names (members.map (·.1)) ↔ Legible names (members'.map (·.1)))
    (same : Legible names (members.map (·.1)) →
      ∀ name ∈ names, docMember? members name = docMember? members' name) :
    fields? names least (.object members) = fields? names least (.object members') := by
  by_cases readable : Legible names (members.map (·.1))
  · rw [fields?_of_legible readable, fields?_of_legible (legible.mp readable),
      List.map_congr_left (same readable)]
  · rw [fields?_of_not_legible readable, fields?_of_not_legible (readable ∘ legible.mpr)]

/-- The order of the members does not matter to a record. -/
theorem fields?_perm (perm : members.Perm members') :
    fields? names least (.object members) = fields? names least (.object members') := by
  have given := perm.map (·.1)
  refine fields?_congr (Legible.perm given) fun legible name known => Option.ext fun d => ?_
  have once := legible.once name known
  rw [docMember?_eq_some_iff once, docMember?_eq_some_iff (given.count_eq _ ▸ once), perm.mem_iff]

/-- A member that a record does not know is passed over. -/
theorem fields?_unknown (unknown : name ∉ names) (d : Doc) :
    fields? names least (.object ((some name, d) :: members)) =
      fields? names least (.object members) := by
  refine fields?_congr (Legible.cons fun known => absurd known unknown) fun _ known inside => ?_
  rw [docMember?_cons, if_neg]
  rintro ⟨⟩
  exact unknown inside

end Fields

section Tables

variable {α : Type} {read? : Doc → Option α} {entries : List (String × α)}

theorem mapM_eq_some_iff_forall₂ {β γ : Type} {f : β → Option γ} {bs : List β} {cs : List γ} :
    bs.mapM f = some cs ↔ List.Forall₂ (fun b c => f b = some c) bs cs := by
  induction bs generalizing cs with
  | nil => cases cs <;> simp
  | cons b bs ih =>
    rw [List.mapM_cons, List.forall₂_cons_left_iff]
    simp only [Option.bind_eq_bind, Option.bind_eq_some_iff, Option.pure_def, Option.some.injEq, ih]
    constructor
    · rintro ⟨c, first, cs, rest, rfl⟩
      exact ⟨c, cs, first, rest, rfl⟩
    · rintro ⟨c, cs, first, rest, rfl⟩
      exact ⟨c, first, cs, rest, rfl⟩

/-- The entries of a table stand under the names of the members. -/
theorem map_fst_of_mapM_pair? (read : members.mapM (pair? read?) = some entries) :
    members.map (·.1) = entries.map fun e => some e.1 := by
  rw [mapM_eq_some_iff_forall₂] at read
  induction read with
  | nil => rfl
  | @cons m e _ _ first _ ih =>
    simp only [pair?, Option.bind_eq_bind, Option.bind_eq_some_iff, Option.pure_def,
      Option.some.injEq] at first
    obtain ⟨name, named, _, _, rfl⟩ := first
    rw [List.map_cons, List.map_cons, ih, named]

theorem distinct_of_mapM_pair? (read : members.mapM (pair? read?) = some entries)
    (nodup : (members.map (·.1)).Nodup) : Table.Distinct entries := by
  rw [map_fst_of_mapM_pair? read] at nodup
  exact (List.pairwise_map.mp nodup).imp fun other same => other (congrArg some same)

/-- A table that is printed is read entry by entry. -/
theorem mapM_pair?_memberDocs {β : Type} {name : β → String} {value : β → Json} {result : β → α}
    (each : ∀ b, read? (value b).toDoc = some (result b)) (bs : List β) :
    (memberDocs (bs.map fun b => (name b, value b))).mapM (pair? read?) =
      some (bs.map fun b => (name b, result b)) := by
  induction bs with
  | nil => rfl
  | cons b bs ih => simp [memberDocs, pair?, each, ih]

theorem mapM_perm {β γ : Type} {f : β → Option γ} {bs bs' : List β} {cs : List γ}
    (perm : bs.Perm bs') (read : bs.mapM f = some cs) :
    ∃ cs', bs'.mapM f = some cs' ∧ cs.Perm cs' := by
  rw [mapM_eq_some_iff_forall₂] at read
  obtain ⟨cs', read', perm'⟩ := List.perm_comp_forall₂ perm.symm read
  exact ⟨cs', mapM_eq_some_iff_forall₂.mpr read', perm'.symm⟩

/-- The order of the members does not matter to a table with different names. -/
theorem table?_perm (nodup : (members.map (·.1)).Nodup) (perm : members.Perm members') :
    table? read? (.object members) = table? read? (.object members') := by
  have forward {members members' : List (Option String × Doc)}
      (nodup : (members.map (·.1)).Nodup) (perm : members.Perm members') {t : Table α}
      (read : table? read? (.object members) = some t) :
      table? read? (.object members') = some t := by
    obtain ⟨entries, mapped, rfl⟩ := Option.map_eq_some_iff.mp read
    obtain ⟨entries', mapped', same⟩ := mapM_perm perm mapped
    rw [table?, mapped', Option.map_some,
      Table.ofList_perm (distinct_of_mapM_pair? mapped nodup) same]
  have nodup' := (perm.map (·.1)).nodup_iff.mp nodup
  exact Option.ext fun t => ⟨forward nodup perm, forward nodup' perm.symm⟩

/-- An entry under a new name that does not count makes no difference to those that do. -/
theorem filter_table?_cons {name : String} {d : Doc} {v : α} (p : String × α → Bool)
    (read : read? d = some v) (out : p (name, v) = false)
    (nodup : (((some name, d) :: members).map (·.1)).Nodup) :
    (table? read? (.object ((some name, d) :: members))).map (List.filter p) =
      (table? read? (.object members)).map (List.filter p) := by
  have first : pair? read? (some name, d) = some (name, v) := by simp [pair?, read]
  cases mapped : members.mapM (pair? read?) with
  | none => simp [table?, first, mapped]
  | some entries =>
    have mapped' : ((some name, d) :: members).mapM (pair? read?) =
        some ((name, v) :: entries) := by simp [first, mapped]
    have distinct' := distinct_of_mapM_pair? mapped' nodup
    have distinct : Table.Distinct entries := (List.pairwise_cons.mp distinct').2
    have beside : ((name, v) :: entries).filter p = entries.filter p :=
      List.filter_cons_of_neg (by simp [out])
    have same := Table.filter_ofList distinct' distinct p (.of_eq beside)
    simp [table?, first, mapped, same]

end Tables

end OtaAgent.Json
