import OtaAgent.Proofs.Files.Opened
import OtaAgent.Proofs.Path.Parts
import Mathlib.Data.List.Forall2
import Mathlib.Data.List.Induction

set_option autoImplicit false

namespace OtaAgent.Files

/-- Other names for what lies in the directories of a tree. -/
structure Labels where
  cwd : Location
  label : Location → String → String
  label_injective (at_ : Location) : Function.Injective (label at_)
  label_here (at_ : Location) : label at_ "." = "."
  label_up (at_ : Location) : label at_ ".." = ".."
  /-- No name gets too long, or short enough. -/
  label_fits (at_ : Location) (n : String) :
    maxName < (label at_ n).utf8ByteSize ↔ maxName < n.utf8ByteSize

namespace Labels

variable (R : Labels)

/-- The names by which to follow `names` from `at_` in the other tree. -/
def names : Location → List String → List String
  | _, [] => []
  | at_, n :: ns => R.label at_ n :: names (Path.follow at_ [n]) ns

/-- Where `more` lies below `at_` in the other tree. -/
def below : Location → Location → Location
  | _, [] => []
  | at_, n :: more => R.label at_ n :: below (at_ ++ [n]) more

def loc (at_ : Location) : Location := R.below [] at_

def place : Place → Place
  | .directory at_ => .directory (R.loc at_)
  | .lost => .lost
  | .entry parent name slash => .entry (R.loc parent) (R.label parent name) slash

/-- Where the names of a path are followed from. -/
def start (p : Path) : Location := if p.isAbsolute then [] else R.cwd

/-- `p'` leads in the other tree to where `p` leads. -/
structure Paths (p p' : Path) : Prop where
  fault : Tree.textFault? p' = Tree.textFault? p
  isAbsolute : p'.isAbsolute = p.isAbsolute
  slash : (p'.text.toList.getLast? == some '/') = (p.text.toList.getLast? == some '/')
  names : p'.names = R.names (R.start p) p.names

section Names

variable {R} {at_ other : Location} {n m : String} {ns ms : List String}

@[simp] theorem label_eq_here : R.label at_ n = "." ↔ n = "." := by
  constructor
  · intro same
    exact R.label_injective at_ (same.trans (R.label_here at_).symm)
  · rintro rfl
    exact R.label_here at_

@[simp] theorem label_eq_up : R.label at_ n = ".." ↔ n = ".." := by
  constructor
  · intro same
    exact R.label_injective at_ (same.trans (R.label_up at_).symm)
  · rintro rfl
    exact R.label_up at_

theorem below_append (at_ more further : Location) :
    R.below at_ (more ++ further) = R.below at_ more ++ R.below (at_ ++ more) further := by
  induction more generalizing at_ with
  | nil => simp [below]
  | cons n more ih => simp [below, ih]

@[simp] theorem loc_nil : R.loc [] = [] := rfl

@[simp] theorem loc_concat (at_ : Location) (n : String) :
    R.loc (at_ ++ [n]) = R.loc at_ ++ [R.label at_ n] := by
  rw [loc, below_append]
  rfl

theorem length_loc (at_ : Location) : (R.loc at_).length = at_.length := by
  induction at_ using List.reverseRecOn with
  | nil => rfl
  | append_singleton at_ n ih => simp [ih]

@[simp] theorem loc_eq_nil : R.loc at_ = [] ↔ at_ = [] := by
  rw [← List.length_eq_zero_iff, length_loc, List.length_eq_zero_iff]

@[simp] theorem loc_dropLast (at_ : Location) : R.loc at_.dropLast = (R.loc at_).dropLast := by
  induction at_ using List.reverseRecOn with
  | nil => rfl
  | append_singleton at_ n ih => simp

theorem loc_injective : Function.Injective R.loc := by
  intro at_ other same
  induction at_ using List.reverseRecOn generalizing other with
  | nil => exact (loc_eq_nil.mp same.symm).symm
  | append_singleton at_ n ih =>
    induction other using List.reverseRecOn with
    | nil => simp at same
    | append_singleton other m =>
      rw [loc_concat, loc_concat] at same
      obtain ⟨above, last⟩ := List.append_inj' same rfl
      obtain rfl := ih above
      obtain rfl := R.label_injective at_ (List.singleton_inj.mp last)
      rfl

theorem names_append (at_ : Location) (ns ms : List String) :
    R.names at_ (ns ++ ms) = R.names at_ ns ++ R.names (Path.follow at_ ns) ms := by
  induction ns generalizing at_ with
  | nil => rfl
  | cons n ns ih =>
    rw [List.cons_append, names, ih, names, List.cons_append,
      ← Path.follow_append, List.singleton_append]

/-- Relabelled names lead to the relabelled location. -/
theorem follow_names (at_ : Location) (ns : List String) :
    Path.follow (R.loc at_) (R.names at_ ns) = R.loc (Path.follow at_ ns) := by
  induction ns generalizing at_ with
  | nil => rfl
  | cons n ns ih =>
    simp only [names, Path.follow, label_eq_here, label_eq_up]
    split
    · exact ih at_
    · split
      · rw [← loc_dropLast]
        exact ih _
      · rw [← loc_concat]
        exact ih _

theorem length_names (at_ : Location) (ns : List String) :
    (R.names at_ ns).length = ns.length := by
  induction ns generalizing at_ with
  | nil => rfl
  | cons n ns ih => simp [names, ih]

theorem names_injective (at_ : Location) : Function.Injective (R.names at_) := by
  intro ns ms same
  induction ns generalizing at_ ms with
  | nil => simpa [length_names] using (congrArg List.length same).symm
  | cons n ns ih =>
    cases ms with
    | nil => cases same
    | cons m ms =>
      simp only [names, List.cons.injEq] at same
      obtain ⟨first, rest⟩ := same
      obtain rfl := R.label_injective at_ first
      rw [ih _ rest]

theorem names_filter (at_ : Location) (ns : List String) :
    (R.names at_ ns).filter (· ≠ ".") = R.names at_ (ns.filter (· ≠ ".")) := by
  induction ns generalizing at_ with
  | nil => rfl
  | cons n ns ih =>
    by_cases here : n = "."
    · subst here
      simpa [names, Path.follow] using ih at_
    · simpa [names, here] using ih _

theorem head?_names (at_ : Location) (ns : List String) :
    (R.names at_ ns).head? = some "." ↔ ns.head? = some "." := by
  cases ns <;> simp [names]

/-- Names are the same in the other tree if they are looked up where nothing is relabelled. -/
theorem names_eq_self (plain : ∀ front n, front ++ [n] <+: ns →
    R.label (Path.follow at_ front) n = n) : R.names at_ ns = ns := by
  induction ns generalizing at_ with
  | nil => rfl
  | cons n ns ih =>
    have first : R.label at_ n = n := plain [] n (by simp)
    have rest : R.names (Path.follow at_ [n]) ns = ns := ih fun front m leads => by
      have there := plain (n :: front) m (by simpa using leads)
      rwa [← List.singleton_append, Path.follow_append] at there
    rw [names, first, rest]

end Names

section Paths

variable {R} {p p' q q' dir dir' : Path} {n n' : String}

/-- A path that leads to the same in both trees does so all along. -/
theorem Paths.above (steady : R.Paths p p) (above : Path.Above q p) : R.Paths q q where
  fault := rfl
  isAbsolute := rfl
  slash := rfl
  names := by
    have names := steady.names
    obtain ⟨rest, whole⟩ := above.names
    have start : R.start q = R.start p := by rw [start, start, above.isAbsolute]
    rw [← whole, names_append] at names
    rw [start]
    exact (List.append_inj names (by rw [length_names])).1

theorem Paths.ancestry (steady : R.Paths p p) :
    List.Forall₂ R.Paths p.ancestry p.ancestry :=
  List.forall₂_same.mpr fun _ among => steady.above (Path.above_of_mem_ancestry among)

/-- Names that are joined to directories lead on as the directories do. -/
theorem Paths.join (dirs : R.Paths dir dir') (isName : Path.IsName n) (isName' : Path.IsName n')
    (label : R.label (dir.lead R.cwd) n = n')
    (fault : Tree.textFault? (dir'.join n') = Tree.textFault? (dir.join n)) :
    R.Paths (dir.join n) (dir'.join n') where
  fault := fault
  isAbsolute := by
    rw [Path.isAbsolute_join dir isName, Path.isAbsolute_join dir' isName', dirs.isAbsolute]
  slash := by
    rw [beq_eq_false_iff_ne.mpr (Path.getLast?_join_ne dir isName),
      beq_eq_false_iff_ne.mpr (Path.getLast?_join_ne dir' isName')]
  names := by
    have start : R.start (dir.join n) = R.start dir := by
      rw [start, start, Path.isAbsolute_join dir isName]
    rw [Path.names_join dir isName, Path.names_join dir' isName', start, names_append,
      ← dirs.names, ← label]
    rfl

theorem Paths.opening_eq (paths : R.Paths p p') : p'.opening = p.opening := by
  unfold Path.opening
  simp only [paths.isAbsolute, paths.names, head?_names]

/-- Paths have the same components if those in the other tree do. -/
theorem Paths.same (first : R.Paths p p') (second : R.Paths q q') : p'.same q' = p.same q := by
  rw [Bool.eq_iff_iff, Path.same_iff, Path.same_iff, first.opening_eq, second.opening_eq]
  apply and_congr_right
  intro opens
  have absolute : p.isAbsolute = q.isAbsolute := by
    rw [Bool.eq_iff_iff, ← Path.root_mem_opening, ← Path.root_mem_opening, opens]
  have start : R.start p = R.start q := by rw [start, start, absolute]
  rw [first.names, second.names, names_filter, names_filter, start]
  exact (names_injective _).eq_iff

theorem Paths.text_eq_empty (paths : R.Paths p p') : p'.text = "" ↔ p.text = "" := by
  have iff (p : Path) : p.text = "" ↔ Tree.textFault? p = some .notFound := by
    unfold Tree.textFault?
    split
    · rename_i empty
      simpa using empty
    · rename_i full
      have full : p.text ≠ "" := by simpa using full
      simp only [full, false_iff]
      split
      · simp
      · split <;> simp
  rw [iff, iff, paths.fault]

theorem Paths.lead (paths : R.Paths p p') :
    p'.lead (R.loc R.cwd) = R.loc (p.lead R.cwd) := by
  rw [Path.lead, Path.lead, paths.isAbsolute, paths.names, start]
  split
  · exact follow_names [] _
  · exact follow_names _ _

end Paths

end Labels
end OtaAgent.Files
