import Mathlib.Data.List.TakeWhile
import OtaAgent.Proofs.Path

set_option autoImplicit false

namespace OtaAgent

theorem slashRuns_joinRuns {runs : List (List Char)} (full : runs ≠ [])
    (plain : ∀ run ∈ runs, '/' ∉ run) : slashRuns (joinRuns runs) = runs := by
  induction runs with
  | nil => exact absurd rfl full
  | cons run runs ih =>
    have first := slashRuns_of_notMem (plain run List.mem_cons_self)
    cases runs with
    | nil => exact first
    | cons other runs =>
      have further := ih (by simp) fun r among => plain r (List.mem_cons_of_mem _ among)
      rw [joinRuns, slashRuns_append, first, further]
      · rfl
      · simp

theorem joinRuns_append {runs more : List (List Char)} (full : runs ≠ []) (rest : more ≠ []) :
    joinRuns (runs ++ more) = joinRuns runs ++ '/' :: joinRuns more := by
  induction runs with
  | nil => exact absurd rfl full
  | cons run runs ih =>
    cases runs with
    | nil =>
      obtain ⟨other, more, rfl⟩ := List.exists_cons_of_ne_nil rest
      rfl
    | cons other runs =>
      have further := ih (by simp)
      simp only [List.cons_append, joinRuns, List.append_assoc] at further ⊢
      rw [further]

namespace Path

variable {p q : Path} {names : List String}

theorem isPrefix_dropFiller (runs : List (List Char)) : dropFiller runs <+: runs := by
  have kept : runs.reverse.dropWhile isFiller <:+ runs.reverse := List.dropWhile_suffix isFiller
  rw [← List.reverse_prefix, List.reverse_reverse] at kept
  exact kept

/-- What is left of the runs when the last component is taken away, and what was taken. -/
theorem cut_of_dropFiller {runs : List (List Char)} (full : dropFiller runs = [] → False) :
    ∃ back, (∃ run ∈ back, run ≠ []) ∧ runs = dropFiller (dropFiller runs).dropLast ++ back := by
  obtain ⟨filler, rest⟩ := isPrefix_dropFiller runs
  obtain ⟨between, front⟩ := isPrefix_dropFiller (dropFiller runs).dropLast
  have last := List.dropLast_concat_getLast full
  refine ⟨between ++ (dropFiller runs).getLast full :: filler,
    ⟨(dropFiller runs).getLast full, by simp, ?_⟩, ?_⟩
  · have first := List.head?_dropWhile_not isFiller runs.reverse
    have here : (runs.reverse.dropWhile isFiller).head? =
        some ((dropFiller runs).getLast full) := by
      rw [← List.getLast?_reverse]
      exact List.getLast?_eq_some_getLast full
    rw [here] at first
    intro empty
    simp [empty, isFiller] at first
  · rw [← List.append_assoc, front, ← List.singleton_append, ← List.append_assoc, last, rest]

theorem names_joinRuns {runs : List (List Char)} (some_ : ∃ run ∈ runs, run ≠ [])
    (plain : ∀ run ∈ runs, '/' ∉ run) : (Path.mk (String.ofList (joinRuns runs))).names ≠ [] := by
  obtain ⟨run, among, full⟩ := some_
  rw [names, String.toList_ofList, slashRuns_joinRuns (List.ne_nil_of_mem among) plain]
  have kept : run ∈ runs.filter (· ≠ []) := by simp [among, full]
  simpa using List.ne_nil_of_mem kept

/-- How a path can begin, and what it is split into then. -/
theorem split_cases (p : Path) :
    p.split.1 = [] ∧ p.isAbsolute = false ∨ p.split.1 = ['/'] ∧ p.isAbsolute = true ∨
      p.split.1 = ['.'] ∧ p.isAbsolute = false ∧
        (p.split.2 = [] ∨ ∃ runs, runs ≠ [] ∧ p.split.2 = [] :: runs) := by
  unfold split isAbsolute
  split
  · rename_i shape
    simp [shape]
  · rename_i shape
    simp [shape]
  · rename_i cs shape
    simp [shape, slashRuns_ne_nil]
  · rename_i notSlash notHere notBelow
    have relative : p.text.toList.head? ≠ some '/' := by
      intro slash
      obtain ⟨cs, shape⟩ := List.head?_eq_some_iff.mp slash
      exact notSlash cs shape
    simpa using relative

/-- The text of a path begins with that of its parent, and goes on with a slash. -/
theorem text_of_parent? (up : p.parent? = some q) :
    q.text.toList = [] ∧ p.isAbsolute = false ∨ q.text.toList = ['/'] ∧ p.isAbsolute = true ∨
      q.text.toList ≠ [] ∧ ∃ more, p.text.toList = q.text.toList ++ '/' :: more ∧
        (Path.mk (String.ofList more)).names ≠ [] := by
  have joined := joinRuns_split p
  have begins := split_cases p
  have plain : ∀ run ∈ p.split.2, '/' ∉ run := fun _ => notMem_of_mem_split
  unfold parent? at up
  cases shape : p.split with
  | mk head runs =>
    rw [shape] at up joined begins plain
    dsimp only at up joined begins plain
    split at up
    · split at up
      · cases up
        rename_i here
        rcases begins with ⟨empty, -⟩ | ⟨slash, -⟩ | ⟨-, relative, -⟩
        · simp [here] at empty
        · simp [here] at slash
        · exact .inl ⟨rfl, relative⟩
      · cases up
    · rename_i nonempty
      cases up
      obtain ⟨back, some_, cut⟩ := cut_of_dropFiller nonempty
      generalize dropFiller (dropFiller runs).dropLast = front at cut ⊢
      subst cut
      rw [String.toList_ofList, ← joined]
      by_cases top : front = []
      · subst top
        rcases begins with ⟨rfl, relative⟩ | ⟨rfl, absolute⟩ | ⟨rfl, -, none_ | ⟨more, full, below⟩⟩
        · exact .inl ⟨rfl, relative⟩
        · exact .inr (.inl ⟨rfl, absolute⟩)
        · rw [List.nil_append] at none_
          simp [none_] at some_
        · right; right
          rw [List.nil_append] at below
          subst below
          have apart : ([[]] : List (List Char)) ≠ [] := by simp
          refine ⟨by simp, joinRuns more, ?_, names_joinRuns (by simpa using some_) ?_⟩
          · exact congrArg (['.'] ++ ·) (joinRuns_append apart full)
          · exact fun run among => plain run (by simp [among])
      · right; right
        have rest := List.ne_nil_of_mem some_.choose_spec.1
        rw [joinRuns_append top rest, ← List.append_assoc]
        refine ⟨?_, _, rfl, names_joinRuns some_ fun run among => plain run (by simp [among])⟩
        intro empty
        rw [joinRuns_append top rest, ← List.append_assoc, empty] at joined
        have absolute : p.isAbsolute = true := by simp [isAbsolute, ← joined]
        rcases begins with ⟨-, relative⟩ | ⟨rfl, -⟩ | ⟨-, relative, -⟩
        · simp [absolute] at relative
        · simp at empty
        · simp [absolute] at relative

/-- The text of a parent is shorter. -/
theorem length_of_parent? (up : p.parent? = some q) (named : p.text ≠ "") :
    q.text.length < p.text.length := by
  have full : 0 < p.text.toList.length := List.length_pos_iff.mpr (by simpa using named)
  rw [← String.length_toList, ← String.length_toList]
  rcases text_of_parent? up with ⟨empty, -⟩ | ⟨slash, absolute⟩ | ⟨-, more, after, -⟩
  · rw [empty]
    exact full
  · obtain ⟨cs, shape⟩ := List.head?_eq_some_iff.mp (by simpa [isAbsolute] using absolute)
    cases cs with
    | nil =>
      have top : p = ⟨"/"⟩ := congrArg Path.mk (String.toList_injective shape)
      rw [top] at up
      cases up
    | cons c cs =>
      rw [slash, shape]
      simp
  · simp [after]

theorem isFiller_of_dropFiller {runs : List (List Char)} (none_ : dropFiller runs = []) :
    ∀ run ∈ runs, isFiller run = true := by
  intro run among
  rw [dropFiller, List.reverse_eq_nil_iff, List.dropWhile_eq_nil_iff] at none_
  exact none_ run (List.mem_reverse.mpr among)

/-- A text whose first run is filler begins with a slash or with `.` as a component. -/
theorem isFiller_head {cs run : List Char} {runs : List (List Char)}
    (cut : slashRuns cs = run :: runs) (filler : isFiller run = true) :
    cs = [] ∨ cs = ['.'] ∨ (∃ ds, cs = '/' :: ds) ∨ ∃ ds, cs = '.' :: '/' :: ds := by
  cases cs with
  | nil => exact .inl rfl
  | cons c cs =>
    by_cases slash : c = '/'
    · exact .inr (.inr (.inl ⟨cs, by rw [slash]⟩))
    · obtain ⟨first, rest, below⟩ := List.exists_cons_of_ne_nil (slashRuns_ne_nil cs)
      simp only [slashRuns, slash, if_false, below, List.cons.injEq] at cut
      obtain ⟨rfl, -⟩ := cut
      obtain ⟨rfl, rfl⟩ : c = '.' ∧ first = [] := by simpa [isFiller] using filler
      cases cs with
      | nil => exact .inr (.inl rfl)
      | cons d ds =>
        by_cases slash : d = '/'
        · exact .inr (.inr (.inr ⟨ds, by rw [slash]⟩))
        · obtain ⟨second, rest', further⟩ := List.exists_cons_of_ne_nil (slashRuns_ne_nil ds)
          simp [slashRuns, slash, further] at below

/-- A path that has a text and no parent leads to the root. -/
theorem names_of_top (top : p.parent? = none) (named : p.text ≠ "") :
    p.isAbsolute = true ∧ ∀ n ∈ p.names, n = "." := by
  have full : p.text.toList ≠ [] := by simpa using named
  unfold parent? at top
  cases shape : p.split with
  | mk head runs =>
    rw [shape] at top
    dsimp only at top
    split at top
    · rename_i none_
      have filler := isFiller_of_dropFiller none_
      split at top
      · cases top
      · rename_i notHere
        unfold split at shape
        split at shape
        · rename_i cs text
          cases shape
          refine ⟨by simp [isAbsolute, text], fun n among => ?_⟩
          simp only [names, text, slashRuns, if_true, ne_eq, not_true_eq_false, not_false_eq_true,
            List.filter_cons_of_neg, List.mem_map, List.mem_filter, decide_not, Bool.not_eq_true',
            decide_eq_false_iff_not] at among
          obtain ⟨run, ⟨among, some_⟩, rfl⟩ := among
          obtain rfl : run = ['.'] := by simpa [isFiller, some_] using filler run among
          rfl
        · cases shape
          exact absurd rfl notHere
        · cases shape
          exact absurd rfl notHere
        · rename_i notSlash notDot notBelow
          cases shape
          obtain ⟨run, rest, cut⟩ := List.exists_cons_of_ne_nil (slashRuns_ne_nil p.text.toList)
          have first := filler run (cut ▸ List.mem_cons_self)
          rcases isFiller_head cut first with empty | here | ⟨ds, slash⟩ | ⟨ds, below⟩
          · exact absurd empty full
          · exact absurd here notDot
          · exact absurd slash (notSlash ds)
          · exact absurd below (notBelow ds)
    · cases top

/-- `q` is `p`, or is passed along `p`. -/
structure Above (q p : Path) : Prop where
  names : q.names <+: p.names
  isAbsolute : q.isAbsolute = p.isAbsolute

theorem Above.refl (p : Path) : Above p p := ⟨List.prefix_rfl, rfl⟩

theorem Above.trans {r : Path} (first : Above r q) (second : Above q p) : Above r p :=
  ⟨first.names.trans second.names, first.isAbsolute.trans second.isAbsolute⟩

theorem above_join (dir : Path) {n : String} (isName : IsName n) : Above dir (dir.join n) where
  names := by
    rw [names_join dir isName]
    exact List.prefix_append _ _
  isAbsolute := (isAbsolute_join dir isName).symm

theorem above_of_parent? (up : p.parent? = some q) : Above q p := by
  rcases text_of_parent? up with ⟨empty, relative⟩ | ⟨slash, absolute⟩ | ⟨full, more, after, -⟩
  · refine ⟨?_, ?_⟩
    · simp [Path.names, empty, slashRuns]
    · rw [relative]
      simp [Path.isAbsolute, empty]
  · refine ⟨?_, ?_⟩
    · simp [Path.names, slash, slashRuns]
    · rw [absolute]
      simp [Path.isAbsolute, slash]
  · refine ⟨?_, ?_⟩
    · simp [Path.names, after, slashRuns_append]
    · obtain ⟨c, cs, shape⟩ := List.exists_cons_of_ne_nil full
      simp [Path.isAbsolute, after, shape]

theorem above_of_mem_ancestry (among : q ∈ p.ancestry) : Above q p := by
  have goes (fuel : Nat) (p : Path) (among : q ∈ ancestry.go fuel p) : Above q p := by
    induction fuel generalizing p with
    | zero => cases among
    | succ fuel ih =>
      rw [ancestry.go] at among
      rcases List.mem_cons.mp among with rfl | among
      · exact .refl q
      · split at among
        · rename_i up
          exact (ih _ among).trans (above_of_parent? up)
        · cases among
  exact goes _ p among

/-- One passes `loc` along the path from the working directory `cwd`. -/
def Passes (p : Path) (cwd loc : List String) : Prop :=
  ∃ names, names <+: p.names ∧ loc = follow (if p.isAbsolute then [] else cwd) names

theorem Above.passes (above : Above q p) (cwd : List String) : p.Passes cwd (q.lead cwd) :=
  ⟨q.names, above.names, by rw [lead, above.isAbsolute]⟩

theorem passes_lead (p : Path) (cwd : List String) : p.Passes cwd (p.lead cwd) :=
  (Above.refl p).passes cwd

/-- The names never step back out of where they set out from, which they are `depth` steps below
already. -/
def descends : Nat → List String → Bool
  | _, [] => true
  | depth, name :: names =>
    if name = "." then descends depth names
    else if name = ".." then depth != 0 && descends (depth - 1) names
    else descends (depth + 1) names

theorem prefix_follow_of_depth {base more front : List String}
    (below : descends more.length names = true) (passed : front <+: names) :
    base <+: follow (base ++ more) front := by
  induction names generalizing more front with
  | nil =>
    obtain rfl := List.prefix_nil.mp passed
    exact List.prefix_append base more
  | cons name names ih =>
    rcases List.prefix_cons_iff.mp passed with rfl | ⟨front, rfl, further⟩
    · exact List.prefix_append base more
    · rw [descends] at below
      rw [follow]
      split
      · rename_i here
        exact ih (by rwa [if_pos here] at below) further
      · rename_i notHere
        rw [if_neg notHere] at below
        split
        · rename_i up
          rw [if_pos up] at below
          simp only [Bool.and_eq_true, bne_iff_ne, ne_eq, List.length_eq_zero_iff] at below
          rw [List.dropLast_append_of_ne_nil below.1]
          exact ih (by rw [List.length_dropLast]; exact below.2) further
        · rename_i notUp
          rw [if_neg notUp] at below
          rw [List.append_assoc]
          exact ih (by simpa using below) further

theorem prefix_follow {front : List String} (base : List String)
    (below : descends 0 names = true) (passed : front <+: names) : base <+: follow base front := by
  have ahead (here : List String) (same : here = base ++ []) : base <+: follow here front :=
    same ▸ prefix_follow_of_depth below passed
  exact ahead base (List.append_nil base).symm

theorem descends_concat {n : String} {depth : Nat} (isName : IsName n)
    (below : descends depth names = true) : descends depth (names ++ [n]) = true := by
  induction names generalizing depth with
  | nil => simp [descends, isName.notHere, isName.notUp]
  | cons name names ih =>
    rw [descends] at below
    rw [List.cons_append, descends]
    split
    · rename_i here
      exact ih (by rwa [if_pos here] at below)
    · rename_i notHere
      rw [if_neg notHere] at below
      split
      · rename_i up
        rw [if_pos up, Bool.and_eq_true] at below
        rw [Bool.and_eq_true]
        exact ⟨below.1, ih below.2⟩
      · rename_i notUp
        rw [if_neg notUp] at below
        exact ih below

end Path
end OtaAgent
