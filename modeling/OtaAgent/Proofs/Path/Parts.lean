import OtaAgent.Proofs.Path.Above

set_option autoImplicit false

namespace OtaAgent.Path

variable {p q : Path} {n m : String} {ns ms : List String}

def Part.ofName (n : String) : Part := if n = ".." then .up else .name n

theorem Part.ofName_injective : Function.Injective ofName := by
  intro n m same
  unfold ofName at same
  split at same <;> split at same <;> simp_all

theorem map_partOfRun (runs : List (List Char)) :
    (runs.filter (!isFiller ·)).map partOfRun =
      ((((runs.filter (· ≠ [])).map String.ofList).filter (· ≠ ".")).map Part.ofName) := by
  induction runs with
  | nil => rfl
  | cons run runs ih =>
    by_cases empty : run = []
    · simpa [empty, isFiller] using ih
    · by_cases here : run = ['.']
      · simpa [here, isFiller] using ih
      · have text {s : String} : String.ofList run = s ↔ run = s.toList := by
          constructor
          · rintro rfl
            exact String.toList_ofList.symm
          · rintro rfl
            exact String.ofList_toList
        have filled : isFiller run = false := by simp [isFiller, empty, here]
        have notHere : String.ofList run ≠ "." := mt text.mp here
        have part : partOfRun run = Part.ofName (String.ofList run) := by
          unfold partOfRun Part.ofName
          simp only [text]
          rfl
        simp only [List.filter_cons, filled, empty, notHere, part, ne_eq, not_false_eq_true,
          decide_true, Bool.not_false, if_true, List.map_cons, ih]

/-- What a path begins with besides its names. -/
def opening (p : Path) : List Part :=
  if p.isAbsolute then [.root] else if p.names.head? = some "." then [.here] else []

theorem root_mem_opening : .root ∈ p.opening ↔ p.isAbsolute = true := by
  unfold opening
  split
  · simp [*]
  · split <;> simp [*]

theorem parts_eq (p : Path) :
    p.parts = p.opening ++ (p.names.filter (· ≠ ".")).map Part.ofName := by
  unfold parts opening
  cases shape : p.split with
  | mk head runs =>
    dsimp only
    rw [map_partOfRun]
    unfold split at shape
    split at shape
    · rename_i cs text
      cases shape
      simp [isAbsolute, names, text, slashRuns]
    · rename_i text
      cases shape
      simp [isAbsolute, names, text, slashRuns]
    · rename_i cs text
      cases shape
      simp [isAbsolute, names, text, slashRuns]
    · rename_i notSlash notHere notBelow
      cases shape
      obtain ⟨run, rest, cut⟩ := List.exists_cons_of_ne_nil (slashRuns_ne_nil p.text.toList)
      have relative : p.isAbsolute = false := by
        simp only [isAbsolute, beq_eq_false_iff_ne, ne_eq]
        intro slash
        obtain ⟨cs, text⟩ := List.head?_eq_some_iff.mp slash
        exact notSlash cs text
      have begins : p.names.head? ≠ some "." := by
        by_cases filler : isFiller run = true
        · rcases isFiller_head cut filler with empty | here | ⟨cs, slash⟩ | ⟨cs, below⟩
          · simp [names, empty, slashRuns]
          · exact absurd here notHere
          · exact absurd slash (notSlash cs)
          · exact absurd below (notBelow cs)
        · obtain ⟨notEmpty, notHere⟩ : run ≠ [] ∧ run ≠ ['.'] := by simpa [isFiller] using filler
          intro here
          simp only [names, cut, ne_eq, List.filter_cons, notEmpty, not_false_eq_true, decide_true,
            if_true, List.map_cons, List.head?_cons, Option.some.injEq] at here
          exact notHere (by simpa using congrArg String.toList here)
      rw [if_neg (by simp), if_neg (by simp), relative, if_neg (by simp), if_neg begins]
      rfl

/-- The component says where the names are followed from. -/
def Part.isOpening : Part → Bool
  | .root | .here => true
  | .up | .name _ => false

theorem filter_opening (p : Path) (ns : List String) :
    (p.opening ++ ns.map Part.ofName).filter Part.isOpening = p.opening ∧
      (p.opening ++ ns.map Part.ofName).filter (!Part.isOpening ·) = ns.map Part.ofName := by
  have named (n : String) : (Part.ofName n).isOpening = false := by
    unfold Part.ofName
    split <;> rfl
  have opens : ∀ part ∈ p.opening, part.isOpening = true := by
    unfold opening
    split
    · simp [Part.isOpening]
    · split <;> simp [Part.isOpening]
  constructor
  · rw [List.filter_append, List.filter_eq_self.mpr opens,
      List.filter_eq_nil_iff.mpr (by simp [named]), List.append_nil]
  · rw [List.filter_append, List.filter_eq_nil_iff.mpr (by simpa using opens),
      List.filter_eq_self.mpr (by simp [named]), List.nil_append]

/-- Two paths have the same components if they open alike and have the same names but for `.`. -/
theorem same_iff : p.same q = true ↔ p.opening = q.opening ∧
    p.names.filter (· ≠ ".") = q.names.filter (· ≠ ".") := by
  simp only [same, decide_eq_true_eq, parts_eq]
  constructor
  · intro parts
    obtain ⟨opens, names⟩ := filter_opening p (p.names.filter (· ≠ "."))
    obtain ⟨opens', names'⟩ := filter_opening q (q.names.filter (· ≠ "."))
    rw [parts] at opens names
    exact ⟨opens.symm.trans opens',
      (List.map_inj_right fun _ _ => @Part.ofName_injective _ _).mp (names.symm.trans names')⟩
  · rintro ⟨opens, names⟩
    rw [opens, names]

theorem fileName?_join (dir : Path) (isName : IsName n) : (dir.join n).fileName? = some n := by
  obtain ⟨runs, shape⟩ := split_join dir isName
  have notUp : n.toList ≠ ['.', '.'] := fun same =>
    isName.notUp (String.toList_injective same)
  simp [fileName?, shape, dropFiller_append runs isName, notUp]

section Ancestry

theorem go_eq {fuel fuel' : Nat} (enough : p.text.length < fuel) (enough' : p.text.length < fuel') :
    ancestry.go fuel p = ancestry.go fuel' p := by
  induction fuel generalizing p fuel' with
  | zero => omega
  | succ fuel ih =>
    cases fuel' with
    | zero => omega
    | succ fuel' =>
      rw [ancestry.go, ancestry.go]
      by_cases named : p.text = ""
      · obtain rfl : p = ⟨""⟩ := congrArg Path.mk named
        rfl
      · cases up : p.parent? with
        | none => rfl
        | some q =>
          have shorter := length_of_parent? up named
          dsimp only
          exact congrArg (p :: ·) (ih (by omega) (by omega))

theorem ancestry_of_parent? (up : p.parent? = some q) (named : p.text ≠ "") :
    p.ancestry = p :: q.ancestry := by
  have shorter := length_of_parent? up named
  rw [ancestry, ancestry.go, up]
  dsimp only
  rw [ancestry, go_eq shorter (Nat.lt_succ_self _)]

/-- The paths above a joined path are the one that it was joined to and those above that. -/
theorem ancestry_join {dir : Path} (isName : IsName n) (isLower : IsName m) :
    ((dir.join n).join m).ancestry = (dir.join n).join m :: (dir.join n).ancestry :=
  ancestry_of_parent? (parent?_join dir isName isLower) (text_join_ne (dir.join n) isLower)

end Ancestry

end OtaAgent.Path
