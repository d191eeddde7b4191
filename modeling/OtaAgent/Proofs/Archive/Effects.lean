import OtaAgent.Proofs.Archive.Record

set_option autoImplicit false

namespace OtaAgent.Archive

open Files

variable (a : Archive)

/-- The files below the directory of the histories are the same in `next` as in `t`, but for those
at `places`. -/
structure Spares (t next : Tree) (places : Location → Prop) : Prop where
  at_ : a.at_ next = a.at_ t
  content : ∀ loc, a.at_ t <+: loc → loc ≠ a.at_ t → ¬ places loc →
    next.content? loc = t.content? loc

def Same (t next : Tree) : Prop := a.Spares t next fun _ => False

/-- The history of `package` is as it was; so are all files below the directory, but for the lock
and the draft of that history. -/
structure Unchanged (t next : Tree) (package : String) : Prop where
  content : next.content? (a.historyAt next package) = t.content? (a.historyAt t package)
  others : a.Spares t next (a.Scratch t package)

/-- The install that left `r` has been added to the history of its package. -/
structure Installed (t next : Tree) (r : Receipt) : Prop where
  recorded : a.recorded? next r.package =
    some (((a.recorded? t r.package).getD (.fresh r.version)).install r.version (a.kept r))
  others : a.Spares t next (a.Belongs t r.package)

structure WentBack (t next : Tree) (package version : String) : Prop where
  recorded : ∃ history, a.recorded? t package = some history ∧
    a.recorded? next package = some (history.goBackTo version)
  others : a.Spares t next (a.Belongs t package)

def BacksUpOutside (t : Tree) (r : Receipt) : Prop :=
  ¬ a.at_ t <+: (a.backupPath r.package r.version r.file).lead t.cwd

variable {a} {t middle next : Tree} {places : Location → Prop} {package version : String}

theorem spares_of_keeps (keeps : t.Keeps next places) : a.Spares t next places where
  at_ := at_of_cwd keeps.cwd
  content loc _ _ outside := keeps.content loc outside

theorem Spares.imp {wider : Location → Prop} (spares : a.Spares t next places)
    (imp : ∀ loc, a.at_ t <+: loc → places loc → wider loc) : a.Spares t next wider where
  at_ := spares.at_
  content loc below other outside :=
    spares.content loc below other fun inside => outside (imp loc below inside)

theorem Spares.trans (first : a.Spares t middle places) (second : a.Spares middle next places) :
    a.Spares t next places where
  at_ := second.at_.trans first.at_
  content loc below other outside := by
    rw [← first.content loc below other outside]
    rw [← first.at_] at below other
    exact second.content loc below other outside

theorem Same.refl (t : Tree) : a.Same t t := ⟨rfl, fun _ _ _ _ => rfl⟩

theorem Same.trans (first : a.Same t middle) (second : a.Same middle next) : a.Same t next :=
  Spares.trans first second

theorem Same.spares (same : a.Same t next) (places : Location → Prop) : a.Spares t next places :=
  Spares.imp same fun _ _ => False.elim

/-- A history is below the directory of the histories. -/
theorem Spares.history (spares : a.Spares t next places)
    (outside : ¬ places (a.historyAt t package)) :
    next.content? (a.historyAt next package) = t.content? (a.historyAt t package) := by
  rw [historyAt_of_at spares.at_]
  exact spares.content _ (List.prefix_append _ _) (by simp [historyAt]) outside

theorem Same.recorded? (same : a.Same t next) :
    a.recorded? next package = a.recorded? t package := by
  rw [Archive.recorded?, Archive.recorded?, Spares.history same id]

theorem Same.unchanged (same : a.Same t next) (package : String) : a.Unchanged t next package where
  content := Spares.history same id
  others := same.spares _

/-- What is the same before a change and after it can be taken in. -/
theorem Unchanged.around {last : Tree} (first : a.Same t middle)
    (change : a.Unchanged middle next package) (rest : a.Same next last) :
    a.Unchanged t last package where
  content := (Spares.history rest id).trans (change.content.trans (Spares.history first id))
  others := (first.spares _).trans
    ((scratch_of_at first.at_ ▸ change.others).trans (rest.spares _))

theorem Installed.around {last : Tree} {r : Receipt} (first : a.Same t middle)
    (change : a.Installed middle next r) (rest : a.Same next last) : a.Installed t last r where
  recorded := by
    rw [rest.recorded?, change.recorded, first.recorded?]
  others := (first.spares _).trans
    ((belongs_of_at first.at_ ▸ change.others).trans (rest.spares _))

theorem WentBack.after (first : a.Same t middle) (change : a.WentBack middle next package version) :
    a.WentBack t next package version where
  recorded := by
    rw [← first.recorded?]
    exact change.recorded
  others := (first.spares _).trans (belongs_of_at first.at_ ▸ change.others)

theorem ne_historyAt_of_outside {loc : Location} (outside : ¬ a.at_ t <+: loc) :
    loc ≠ a.historyAt t package := by
  intro same
  subst same
  exact outside (List.prefix_append _ _)

theorem installed_of_record {r : Receipt} {h : History} (outside : a.BacksUpOutside t r)
    (ran : (a.record r).runOn t = (.ok h, next)) : a.Installed t next r := by
  obtain ⟨rfl, said, keeps⟩ := runOn_record (ne_historyAt_of_outside outside) ran
  refine ⟨said, (spares_of_keeps keeps).imp fun loc below => ?_⟩
  intro there
  rcases there with history | backup | scratch
  · exact .inl history
  · exact absurd (backup ▸ below) outside
  · exact .inr scratch

theorem unchanged_of_keeps {places : Location → Prop} (keeps : t.Keeps next places)
    (scratch : ∀ loc, a.at_ t <+: loc → places loc → a.Scratch t package loc) :
    a.Unchanged t next package where
  content := by
    rw [historyAt_of_cwd keeps.cwd]
    apply keeps.content
    intro inside
    exact not_scratch_historyAt (scratch _ (List.prefix_append _ _) inside)
  others := (spares_of_keeps keeps).imp scratch

theorem unchanged_of_record {r : Receipt} {e : Error} (outside : a.BacksUpOutside t r)
    (ran : (a.record r).runOn t = (.error e, next)) : a.Unchanged t next r.package := by
  apply unchanged_of_keeps (failsWithin_record r t e next rfl ran)
  intro loc below there
  rcases there with backup | scratch
  · exact absurd (backup ▸ below) outside
  · exact scratch

theorem wentBack_of_reinstate {h : History}
    (ran : (a.reinstate package version).runOn t = (.ok h, next)) :
    a.WentBack t next package version := by
  obtain ⟨⟨before, said, -, rfl⟩, back, keeps⟩ := runOn_reinstate ran
  exact ⟨⟨before, said, back⟩, spares_of_keeps keeps⟩

theorem unchanged_of_reinstate {e : Error}
    (ran : (a.reinstate package version).runOn t = (.error e, next)) :
    a.Unchanged t next package :=
  unchanged_of_keeps (failsWithin_reinstate package version t e next rfl ran) fun _ _ => id

end OtaAgent.Archive
