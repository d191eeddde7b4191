import OtaAgent.Path

set_option autoImplicit false

namespace OtaAgent

theorem slashRuns_append (cs ds : List Char) :
    slashRuns (cs ++ '/' :: ds) = slashRuns cs ++ slashRuns ds := by
  induction cs with
  | nil => rfl
  | cons c cs ih =>
    simp only [List.cons_append, slashRuns, ih]
    split
    · rfl
    · obtain ⟨run, runs, shape⟩ := List.exists_cons_of_ne_nil (slashRuns_ne_nil cs)
      rw [shape]
      rfl

theorem slashRuns_of_notMem {cs : List Char} (plain : '/' ∉ cs) : slashRuns cs = [cs] := by
  induction cs with
  | nil => rfl
  | cons c cs ih =>
    have other : c ≠ '/' := fun same => plain (same ▸ List.mem_cons_self)
    simp only [slashRuns, other, if_false, ih fun inside => plain (List.mem_cons_of_mem _ inside)]

/-- What is put after a text without a slash belongs to its last run. -/
theorem slashRuns_append_of_notMem {ds : List Char} (plain : '/' ∉ ds) (cs : List Char) :
    ∃ runs last, slashRuns cs = runs ++ [last] ∧ slashRuns (cs ++ ds) = runs ++ [last ++ ds] := by
  induction cs with
  | nil => exact ⟨[], [], rfl, slashRuns_of_notMem plain⟩
  | cons c cs ih =>
    obtain ⟨runs, last, before, after⟩ := ih
    by_cases slash : c = '/'
    · exact ⟨[] :: runs, last, by simp [slashRuns, slash, before],
        by simp [slashRuns, slash, after]⟩
    · cases runs with
      | nil =>
        exact ⟨[], c :: last, by simp [slashRuns, slash, before], by simp [slashRuns, slash, after]⟩
      | cons run runs =>
        exact ⟨(c :: run) :: runs, last, by simp [slashRuns, slash, before],
          by simp [slashRuns, slash, after]⟩

namespace Path

def names (p : Path) : List String :=
  ((slashRuns p.text.toList).filter (· ≠ [])).map String.ofList

/-- Goes on from `at_` by `names`. -/
def follow : List String → List String → List String
  | at_, [] => at_
  | at_, name :: names =>
    if name = "." then follow at_ names
    else if name = ".." then follow at_.dropLast names
    else follow (at_ ++ [name]) names

/-- Where the path leads from the working directory `cwd`. -/
def lead (p : Path) (cwd : List String) : List String :=
  follow (if p.isAbsolute then [] else cwd) p.names

theorem follow_append (at_ names more : List String) :
    follow at_ (names ++ more) = follow (follow at_ names) more := by
  induction names generalizing at_ with
  | nil => rfl
  | cons name names ih =>
    simp only [List.cons_append, follow]
    split
    · exact ih _
    · split <;> exact ih _

def Part.follow (at_ : List String) : Part → List String
  | .root => []
  | .here => at_
  | .up => at_.dropLast
  | .name s => at_ ++ [s]

theorem follow_runs (at_ : List String) (runs : List (List Char)) :
    follow at_ ((runs.filter (· ≠ [])).map String.ofList) =
      ((runs.filter (!isFiller ·)).map partOfRun).foldl Part.follow at_ := by
  induction runs generalizing at_ with
  | nil => rfl
  | cons run runs ih =>
    by_cases empty : run = []
    · simpa [empty, isFiller] using ih at_
    · by_cases here : run = ['.']
      · simpa [here, isFiller, follow] using ih at_
      · have filled : isFiller run = false := by simp [isFiller, empty, here]
        have notHere : String.ofList run ≠ "." := by
          intro same
          exact here (by simpa using congrArg String.toList same)
        simp only [List.filter_cons, empty, ne_eq, not_false_eq_true, decide_true, if_true, filled,
          Bool.not_false, List.map_cons, List.foldl_cons, follow, notHere, if_false]
        by_cases up : run = ['.', '.']
        · simpa [up, partOfRun, Part.follow] using ih at_.dropLast
        · have notUp : String.ofList run ≠ ".." := by
            intro same
            exact up (by simpa using congrArg String.toList same)
          simpa [notUp, up, partOfRun, Part.follow] using ih (at_ ++ [String.ofList run])

/-- A path leads where its components lead, one after the other. -/
theorem lead_eq_foldl_parts (p : Path) (cwd : List String) :
    p.lead cwd = p.parts.foldl Part.follow cwd := by
  unfold lead names parts split isAbsolute
  generalize p.text.toList = cs
  by_cases absolute : cs.head? = some '/'
  · obtain ⟨rest, rfl⟩ := List.head?_eq_some_iff.mp absolute
    simpa [slashRuns, Part.follow] using follow_runs [] (slashRuns rest)
  · have relative : (cs.head? == some '/') = false := by simpa using absolute
    rw [relative, if_neg Bool.false_ne_true]
    split
    rename_i head runs taken
    split at taken
    · simp at absolute
    · cases taken
      rfl
    · rename_i rest
      cases taken
      simpa [slashRuns, Part.follow, isFiller, follow] using follow_runs cwd ([] :: slashRuns rest)
    · cases taken
      simpa using follow_runs cwd (slashRuns cs)

/-- Paths with the same components lead to the same place. -/
theorem lead_eq_of_same {p q : Path} (same : p.same q = true) (cwd : List String) :
    p.lead cwd = q.lead cwd := by
  rw [lead_eq_foldl_parts, lead_eq_foldl_parts, of_decide_eq_true same]

structure IsName (n : String) : Prop where
  notEmpty : n ≠ ""
  notHere : n ≠ "."
  notUp : n ≠ ".."
  noSlash : '/' ∉ n.toList

variable {n : String}

theorem IsName.toList_ne_nil (isName : IsName n) : n.toList ≠ [] := by
  simpa using isName.notEmpty

theorem IsName.not_isAbsolute (isName : IsName n) : (Path.mk n).isAbsolute = false := by
  obtain ⟨c, cs, shape⟩ := List.exists_cons_of_ne_nil isName.toList_ne_nil
  have other : c ≠ '/' := fun same => isName.noSlash (shape ▸ same ▸ List.mem_cons_self)
  simpa [isAbsolute, shape] using other

/-- The characters of a joined path: those of the directory up to a slash, if there are any, then
what is joined to it. -/
theorem toList_join (dir : Path) (relative : (Path.mk n).isAbsolute = false) :
    dir.text.toList = [] ∧ (dir.join n).text.toList = n.toList ∨
      ∃ cs, (dir.join n).text.toList = cs ++ '/' :: n.toList ∧
        (dir.text.toList = cs ∧ cs ≠ [] ∨ dir.text.toList = cs ++ ['/']) := by
  unfold join
  rw [relative]
  by_cases empty : dir.text.toList = []
  · have none_ : dir.text = "" := by simpa using empty
    simp [none_]
  · right
    by_cases slash : dir.text.toList.getLast? = some '/'
    · obtain ⟨cs, shape⟩ := List.getLast?_eq_some_iff.mp slash
      refine ⟨cs, ?_, .inr shape⟩
      simp [shape]
    · refine ⟨dir.text.toList, ?_, .inl ⟨rfl, empty⟩⟩
      have full : dir.text ≠ "" := by simpa using empty
      simp [slash, full]

/-- Names are joined to a directory by putting them after the same text. -/
theorem text_join (dir : Path) :
    ∃ stem, ∀ {n : String}, IsName n → (dir.join n).text = stem ++ n := by
  refine ⟨if dir.text.isEmpty || dir.text.toList.getLast? == some '/' then dir.text
    else dir.text ++ "/", ?_⟩
  intro n isName
  unfold join
  rw [isName.not_isAbsolute]
  simp only [Bool.false_eq_true, if_false]
  split <;> rfl

theorem exists_text_join (dir : Path) (isName : IsName n) :
    ∃ rest, (dir.join n).text = dir.text ++ rest := by
  unfold join
  rw [isName.not_isAbsolute]
  simp only [Bool.false_eq_true, if_false]
  split
  · exact ⟨n, rfl⟩
  · exact ⟨"/" ++ n, String.append_assoc⟩

theorem toList_join_ne_nil (dir : Path) (isName : IsName n) : (dir.join n).text.toList ≠ [] := by
  rcases toList_join dir isName.not_isAbsolute with ⟨-, joined⟩ | ⟨cs, joined, -⟩ <;>
    simp [joined, isName.notEmpty]

theorem text_join_ne (dir : Path) (isName : IsName n) : (dir.join n).text ≠ "" := by
  simpa using toList_join_ne_nil dir isName

theorem getLast?_join_ne (dir : Path) (isName : IsName n) :
    (dir.join n).text.toList.getLast? ≠ some '/' := by
  have ending : (dir.join n).text.toList.getLast? = n.toList.getLast? := by
    rcases toList_join dir isName.not_isAbsolute with ⟨-, joined⟩ | ⟨cs, joined, -⟩
    · rw [joined]
    · obtain ⟨c, rest, shape⟩ := List.exists_cons_of_ne_nil isName.toList_ne_nil
      simp [joined, shape, List.getLast?_cons]
  rw [ending]
  intro slash
  exact isName.noSlash (List.mem_of_getLast? slash)

theorem names_join_of_relative (dir : Path) (relative : (Path.mk n).isAbsolute = false) :
    (dir.join n).names = dir.names ++ (Path.mk n).names := by
  rcases toList_join dir relative with ⟨empty, joined⟩ | ⟨cs, joined, same | slash⟩
  · simp [names, joined, empty, slashRuns]
  · simp [names, joined, same.1, slashRuns_append]
  · simp [names, joined, slash, slashRuns_append, slashRuns]

theorem isAbsolute_join_of_relative (dir : Path) (relative : (Path.mk n).isAbsolute = false) :
    (dir.join n).isAbsolute = dir.isAbsolute := by
  rcases toList_join dir relative with ⟨empty, joined⟩ | ⟨cs, joined, ⟨same, full⟩ | slash⟩
  · simp only [isAbsolute] at relative ⊢
    rw [joined, relative, empty]
    rfl
  · obtain ⟨c, rest, rfl⟩ := List.exists_cons_of_ne_nil full
    simp [isAbsolute, joined, same]
  · cases cs with
    | nil => simp [isAbsolute, joined, slash]
    | cons c rest => simp [isAbsolute, joined, slash]

theorem IsName.names (isName : IsName n) : (Path.mk n).names = [n] := by
  simp [Path.names, slashRuns_of_notMem isName.noSlash, isName.notEmpty]

theorem names_join (dir : Path) (isName : IsName n) : (dir.join n).names = dir.names ++ [n] := by
  rw [names_join_of_relative dir isName.not_isAbsolute, isName.names]

theorem isAbsolute_join (dir : Path) (isName : IsName n) :
    (dir.join n).isAbsolute = dir.isAbsolute :=
  isAbsolute_join_of_relative dir isName.not_isAbsolute

theorem lead_join_of_relative (dir : Path) (cwd : List String)
    (relative : (Path.mk n).isAbsolute = false) :
    (dir.join n).lead cwd = follow (dir.lead cwd) (Path.mk n).names := by
  rw [lead, lead, names_join_of_relative dir relative, isAbsolute_join_of_relative dir relative,
    follow_append]

theorem lead_join (dir : Path) (cwd : List String) (isName : IsName n) :
    (dir.join n).lead cwd = dir.lead cwd ++ [n] := by
  rw [lead_join_of_relative dir cwd isName.not_isAbsolute, isName.names]
  simp [follow, isName.notHere, isName.notUp]

theorem join_suffixed (dir : Path) {suffix : String} (isName : IsName n)
    (longer : IsName (n ++ suffix)) : (dir.join n).suffixed suffix = dir.join (n ++ suffix) := by
  unfold join suffixed
  rw [isName.not_isAbsolute, longer.not_isAbsolute]
  simp only [Bool.false_eq_true, if_false]
  split <;> simp [String.append_assoc]

section Suffixed

variable {suffix : String}

theorem isAbsolute_suffixed (p : Path) (plain : '/' ∉ suffix.toList) :
    (p.suffixed suffix).isAbsolute = p.isAbsolute := by
  unfold isAbsolute suffixed
  cases shape : p.text.toList with
  | nil =>
    have none_ : suffix.toList.head? ≠ some '/' := fun same => plain (List.mem_of_head? same)
    simp [shape, none_]
  | cons c cs => simp [shape]

/-- A suffix makes the last name of a path longer, or is a name of its own after a slash. -/
theorem names_suffixed (p : Path) (plain : '/' ∉ suffix.toList) (full : suffix ≠ "") :
    ∃ front last, p.names = front ++ (if last = "" then [] else [last]) ∧
      (p.suffixed suffix).names = front ++ [last ++ suffix] := by
  obtain ⟨runs, last, before, after⟩ := slashRuns_append_of_notMem plain p.text.toList
  refine ⟨(runs.filter (· ≠ [])).map String.ofList, String.ofList last, ?_, ?_⟩
  · rw [names, before]
    by_cases empty : last = [] <;> simp [empty]
  · have text : (p.suffixed suffix).text.toList = p.text.toList ++ suffix.toList :=
      String.toList_append
    rw [names, text, after]
    simp [full]

/-- A suffix that has no slash and is longer than two characters makes a path lead elsewhere. -/
theorem lead_suffixed_ne (p : Path) (cwd : List String) (plain : '/' ∉ suffix.toList)
    (long : 2 < suffix.length) : (p.suffixed suffix).lead cwd ≠ p.lead cwd := by
  have full : suffix ≠ "" := by
    rintro rfl
    simp at long
  obtain ⟨front, last, before, after⟩ := p.names_suffixed plain full
  rw [lead, lead, p.isAbsolute_suffixed plain, before, after, follow_append, follow_append]
  generalize follow (if p.isAbsolute then [] else cwd) front = at_
  have notShort (n : String) (short : n.length ≤ 2) : last ++ suffix ≠ n := by
    rintro rfl
    rw [String.length_append] at short
    omega
  have there : follow at_ [last ++ suffix] = at_ ++ [last ++ suffix] := by
    simp only [follow, if_neg (notShort "." (by decide)), if_neg (notShort ".." (by decide))]
  rw [there]
  intro same
  by_cases none_ : last = ""
  · simp [none_, follow] at same
  · rw [if_neg none_] at same
    simp only [follow] at same
    split at same
    · simpa using congrArg List.length same
    · split at same
      · have short := congrArg List.length same
        simp at short
        omega
      · simp [full] at same

end Suffixed

section Below

variable {dir p q : Path} {more : List String}

theorem follow_names (at_ : List String) {names : List String}
    (each : ∀ n ∈ names, IsName n) : follow at_ names = at_ ++ names := by
  induction names generalizing at_ with
  | nil => simp [follow]
  | cons name names ih =>
    have isName := each name List.mem_cons_self
    rw [follow, if_neg isName.notHere, if_neg isName.notUp,
      ih _ fun n among => each n (List.mem_cons_of_mem _ among), List.append_assoc]
    rfl

/-- `q` leads on from `dir` by `more`, and says nothing else. -/
structure Below (dir : Path) (more : List String) (q : Path) : Prop where
  names : q.names = dir.names ++ more
  isAbsolute : q.isAbsolute = dir.isAbsolute
  noSlash : q.text.toList.getLast? ≠ some '/'
  each : ∀ n ∈ more, IsName n

theorem below_join (dir : Path) (isName : IsName n) : Below dir [n] (dir.join n) where
  names := names_join dir isName
  isAbsolute := isAbsolute_join dir isName
  noSlash := getLast?_join_ne dir isName
  each _ among := List.mem_singleton.mp among ▸ isName

theorem Below.join (below : Below dir more q) (isName : IsName n) :
    Below dir (more ++ [n]) (q.join n) where
  names := by rw [names_join q isName, below.names, List.append_assoc]
  isAbsolute := (isAbsolute_join q isName).trans below.isAbsolute
  noSlash := getLast?_join_ne q isName
  each m among := by
    rcases List.mem_append.mp among with among | last
    · exact below.each m among
    · exact List.mem_singleton.mp last ▸ isName

theorem Below.lead (below : Below dir more q) (cwd : List String) :
    q.lead cwd = dir.lead cwd ++ more := by
  rw [Path.lead, Path.lead, below.names, below.isAbsolute, follow_append,
    follow_names _ below.each]

end Below

section Components

theorem isFiller_of_isName (isName : IsName n) : isFiller n.toList = false := by
  have notEmpty := isName.toList_ne_nil
  have notHere : n.toList ≠ ['.'] := by
    intro same
    exact isName.notHere (String.toList_injective same)
  simp [isFiller, notEmpty, notHere]

theorem dropFiller_append (runs : List (List Char)) (isName : IsName n) :
    dropFiller (runs ++ [n.toList]) = runs ++ [n.toList] := by
  simp [dropFiller, isFiller_of_isName isName]

/-- A text that begins with neither a slash nor `.` as a component is all runs. -/
theorem split_of_runs {p : Path} (relative : p.text.toList.head? ≠ some '/')
    (notHere : p.text.toList ≠ ['.']) (notBelow : ∀ cs, p.text.toList ≠ '.' :: '/' :: cs) :
    p.split = ([], slashRuns p.text.toList) := by
  unfold split
  split
  · rename_i shape
    simp [shape] at relative
  · rename_i shape
    exact absurd shape notHere
  · rename_i cs shape
    exact absurd shape (notBelow cs)
  · rfl

/-- The last component of a path is what comes after its last slash. -/
theorem split_append {p q : Path} {ds : List Char} (plain : '/' ∉ ds)
    (after : q.text.toList = p.text.toList ++ '/' :: ds) (full : p.text.toList ≠ [])
    (notHere : p.text.toList ≠ ['.']) : q.split = (p.split.1, p.split.2 ++ [ds]) := by
  have runs (cs : List Char) : slashRuns (cs ++ '/' :: ds) = slashRuns cs ++ [ds] := by
    rw [slashRuns_append, slashRuns_of_notMem plain]
  obtain ⟨c, cs, shape⟩ := List.exists_cons_of_ne_nil full
  by_cases absolute : c = '/'
  · subst absolute
    simp [split, after, shape, runs]
  · by_cases below : ∃ ds, p.text.toList = '.' :: '/' :: ds
    · obtain ⟨ds, shape⟩ := below
      simp [split, after, shape, runs]
    · have notBelow (es : List Char) : p.text.toList ≠ '.' :: '/' :: es := fun same =>
        below ⟨es, same⟩
      have notBelow' (es : List Char) : q.text.toList ≠ '.' :: '/' :: es := by
        rw [after]
        cases cs with
        | nil =>
          rw [shape]
          rintro same
          obtain rfl : c = '.' := by simpa using congrArg List.head? same
          exact notHere shape
        | cons c' cs =>
          rw [shape]
          intro same
          simp only [List.cons_append, List.cons.injEq] at same
          obtain ⟨rfl, rfl, -⟩ := same
          exact notBelow cs shape
      rw [split_of_runs (by simpa [shape] using absolute) notHere notBelow, split_of_runs _ _
        notBelow', after, runs]
      · simpa [after, shape] using absolute
      · intro same
        have long := congrArg List.length same
        simp [after, shape] at long

theorem split_name (isName : IsName n) : (Path.mk n).split = ([], [n.toList]) := by
  have relative := isName.not_isAbsolute
  rw [split_of_runs, slashRuns_of_notMem isName.noSlash]
  · simpa [isAbsolute] using relative
  · intro same
    exact isName.notHere (String.toList_injective same)
  · intro cs same
    exact isName.noSlash (by simp [show n.toList = _ from same])

/-- What a joined path is split into ends in its name. -/
theorem split_join (dir : Path) (isName : IsName n) :
    ∃ runs, (dir.join n).split.2 = runs ++ [n.toList] := by
  have last := slashRuns_of_notMem isName.noSlash
  rcases toList_join dir isName.not_isAbsolute with ⟨-, joined⟩ | ⟨cs, joined, -⟩
  · have same : dir.join n = ⟨n⟩ := congrArg Path.mk (String.toList_injective joined)
    exact ⟨[], by rw [same, split_name isName]; rfl⟩
  · by_cases top : cs = []
    · refine ⟨[], ?_⟩
      simp [split, joined, top, last]
    · by_cases here : cs = ['.']
      · refine ⟨[[]], ?_⟩
        simp [split, joined, here, last]
      · have after := split_append (p := ⟨String.ofList cs⟩) (q := dir.join n) isName.noSlash
          (by simpa using joined) (by simpa using top) (by simpa using here)
        exact ⟨_, congrArg Prod.snd after⟩

/-- The text of a path is made of what it is split into. -/
theorem joinRuns_split (p : Path) : p.split.1 ++ joinRuns p.split.2 = p.text.toList := by
  unfold split
  split
  · rename_i cs shape
    simp [shape, joinRuns_slashRuns]
  · rename_i shape
    simp [shape, joinRuns]
  · rename_i cs shape
    obtain ⟨run, runs, full⟩ := List.exists_cons_of_ne_nil (slashRuns_ne_nil cs)
    have joined : joinRuns ([] :: slashRuns cs) = '/' :: cs := by
      rw [full, joinRuns, ← full, joinRuns_slashRuns]
      · rfl
      · simp
    simp [shape, joined]
  · simp [joinRuns_slashRuns]

theorem parent?_join {m : String} (dir : Path) (isName : IsName n) (isLower : IsName m) :
    ((dir.join n).join m).parent? = some (dir.join n) := by
  have full := toList_join_ne_nil dir isName
  have noSlash := getLast?_join_ne dir isName
  have notHere : (dir.join n).text.toList ≠ ['.'] := by
    intro here
    rcases toList_join dir isName.not_isAbsolute with ⟨-, joined⟩ | ⟨cs, joined, -⟩
    · exact isName.notHere (String.toList_injective (joined.symm.trans here))
    · rw [here] at joined
      have long := congrArg List.length joined
      have some_ : 0 < n.toList.length := List.length_pos_iff.mpr isName.toList_ne_nil
      simp at long
      omega
  have after : ((dir.join n).join m).text.toList = (dir.join n).text.toList ++ '/' :: m.toList := by
    rcases toList_join (dir.join n) isLower.not_isAbsolute with
      ⟨empty, -⟩ | ⟨cs, joined, same | slash⟩
    · exact absurd empty full
    · rw [joined, same.1]
    · rw [slash] at noSlash
      simp at noSlash
  obtain ⟨runs, shape⟩ := split_join dir isName
  have trimmed : dropFiller (dir.join n).split.2 = (dir.join n).split.2 := by
    rw [shape, dropFiller_append runs isName]
  have text := joinRuns_split (dir.join n)
  have split := split_append isLower.noSlash after full notHere
  unfold parent?
  rw [split]
  dsimp only
  rw [dropFiller_append _ isLower]
  split
  · rename_i none_
    simp at none_
  · rw [List.dropLast_concat, trimmed, text, String.ofList_toList]

theorem exists_parent?_join (dir : Path) (isName : IsName n) :
    ∃ up, (dir.join n).parent? = some up := by
  obtain ⟨runs, shape⟩ := split_join dir isName
  unfold parent?
  cases cut : (dir.join n).split with
  | mk head all =>
    obtain rfl : all = runs ++ [n.toList] := by simpa [cut] using shape
    dsimp only
    rw [dropFiller_append runs isName]
    split
    · rename_i none_
      simp at none_
    · exact ⟨_, rfl⟩

theorem notMem_of_mem_slashRuns {run cs : List Char} (among : run ∈ slashRuns cs) : '/' ∉ run := by
  induction cs generalizing run with
  | nil => simp_all [slashRuns]
  | cons c cs ih =>
    obtain ⟨first, runs, shape⟩ := List.exists_cons_of_ne_nil (slashRuns_ne_nil cs)
    rw [shape] at ih
    simp only [slashRuns, shape] at among
    split at among
    · rcases List.mem_cons.mp among with rfl | among
      · simp
      · exact ih among
    · rename_i other
      rcases List.mem_cons.mp among with rfl | among
      · simpa [Ne.symm other] using ih List.mem_cons_self
      · exact ih (List.mem_cons_of_mem _ among)

theorem notMem_of_mem_split {p : Path} {run : List Char} (among : run ∈ p.split.2) :
    '/' ∉ run := by
  unfold split at among
  split at among
  · exact notMem_of_mem_slashRuns among
  · simp at among
  · rcases List.mem_cons.mp among with rfl | among
    · simp
    · exact notMem_of_mem_slashRuns among
  · exact notMem_of_mem_slashRuns among

theorem isName_of_fileName? {p : Path} (named : p.fileName? = some n) : IsName n := by
  unfold fileName? at named
  split at named
  · rename_i run last
    split at named
    · cases named
    · rename_i notUp
      obtain rfl := Option.some.inj named
      have among : run ∈ p.split.2.reverse.dropWhile isFiller := by
        simpa [dropFiller] using List.mem_of_getLast? last
      have filled : isFiller run = false := by
        have first := List.head?_dropWhile_not isFiller p.split.2.reverse
        rw [dropFiller, List.getLast?_reverse] at last
        rwa [last] at first
      have noSlash := notMem_of_mem_split
        (List.mem_reverse.mp ((List.dropWhile_suffix _).mem among))
      obtain ⟨notEmpty, notHere⟩ : run ≠ [] ∧ run ≠ ['.'] := by simpa [isFiller] using filled
      have chars {s : String} (same : String.ofList run = s) : run = s.toList := by
        rw [← same, String.toList_ofList]
      exact {
        notEmpty := fun same => notEmpty (chars same)
        notHere := fun same => notHere (chars same)
        notUp := fun same => notUp (chars same)
        noSlash := by rwa [String.toList_ofList] }
  · cases named

end Components

end Path
end OtaAgent
