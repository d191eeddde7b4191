import OtaAgent.Proofs.Files.Resumed

set_option autoImplicit false

namespace OtaAgent

namespace Path

variable {p q : Path} {at_ cwd loc : List String} {names more : List String}

/-- `loc` is entered by its name along `names` from `at_`; a `.` or `..` enters nothing. -/
def Entered (loc : List String) : List String → List String → Prop
  | _, [] => False
  | at_, name :: names =>
    if name = "." then Entered loc at_ names
    else if name = ".." then Entered loc at_.dropLast names
    else loc = at_ ++ [name] ∨ Entered loc (at_ ++ [name]) names

theorem entered_append :
    Entered loc at_ (names ++ more) ↔
      Entered loc at_ names ∨ Entered loc (follow at_ names) more := by
  induction names generalizing at_ with
  | nil => simp [Entered, follow]
  | cons name names ih =>
    simp only [List.cons_append, Entered, follow]
    split
    · exact ih
    · split
      · exact ih
      · rw [ih, or_assoc]

/-- What is entered is passed. -/
theorem Entered.passed (entered : Entered loc at_ names) :
    ∃ front, front <+: names ∧ loc = follow at_ front := by
  induction names generalizing at_ with
  | nil => exact entered.elim
  | cons name names ih =>
    have further {here : List String} (starts : follow at_ [name] = here)
        (entered : Entered loc here names) :
        ∃ front, front <+: name :: names ∧ loc = follow at_ front := by
      obtain ⟨front, passed, there⟩ := ih entered
      refine ⟨name :: front, List.cons_prefix_cons.mpr ⟨rfl, passed⟩, ?_⟩
      rw [there, ← starts, ← follow_append, List.singleton_append]
    rw [Entered] at entered
    split at entered
    · rename_i here
      exact further (by simp [follow, here]) entered
    · rename_i notHere
      split at entered
      · rename_i up
        exact further (by simp [follow, up]) entered
      · rename_i notUp
        have starts : follow at_ [name] = at_ ++ [name] := by simp [follow, notHere, notUp]
        rcases entered with rfl | entered
        · exact ⟨[name], by simp, starts.symm⟩
        · exact further starts entered

/-- One enters `loc` along the path from the working directory `cwd`. -/
@[irreducible] def Enters (p : Path) (cwd loc : List String) : Prop :=
  Entered loc (if p.isAbsolute then [] else cwd) p.names

theorem Enters.passes (enters : p.Enters cwd loc) : p.Passes cwd loc := by
  unfold Enters at enters
  exact enters.passed

theorem Above.enters (above : Above q p) (enters : q.Enters cwd loc) : p.Enters cwd loc := by
  obtain ⟨⟨more, names⟩, absolute⟩ := above
  unfold Enters at enters ⊢
  rw [← names, ← absolute, entered_append]
  exact .inl enters

theorem enters_join {dir : Path} {n : String} (isName : IsName n) :
    (dir.join n).Enters cwd loc ↔ dir.Enters cwd loc ∨ loc = dir.lead cwd ++ [n] := by
  unfold Enters lead
  rw [names_join dir isName, isAbsolute_join dir isName, entered_append]
  simp [Entered, isName.notHere, isName.notUp]

end Path

namespace Files.Tree

variable {t x next last : Tree} {p q : Path} {at_ loc parent : Location} {n name : String}
  {names : List String} {slash : Bool} {place : Place}

section Walking

/-- How one gets on by a name that others follow. -/
theorem step_cases {here : Location} (went : t.step at_ name = .ok here) :
    name = "." ∧ here = at_ ∨ name = ".." ∧ here = at_.dropLast ∨
      (name ≠ "." ∧ name ≠ ".." ∧ here = at_ ++ [name] ∧ t.node? (at_ ++ [name]) = some .dir) := by
  unfold step at went
  split at went
  · rename_i same
    cases went
    exact .inl ⟨same, rfl⟩
  · rename_i notHere
    split at went
    · rename_i up
      cases went
      exact .inr (.inl ⟨up, rfl⟩)
    · rename_i notUp
      split at went
      · cases went
      · split at went
        · rename_i isDir
          cases went
          exact .inr (.inr ⟨notHere, notUp, rfl, isDir⟩)
        · cases went
        · cases went

/-- A name that is stepped by enters a directory or nothing, and the rest is entered from there. -/
theorem entered_of_step {here : Location} (went : t.step at_ name = .ok here) :
    Path.Entered loc at_ (name :: names) →
      t.node? loc = some .dir ∨ Path.Entered loc here names := by
  rw [Path.Entered]
  rcases step_cases went with ⟨same, rfl⟩ | ⟨rfl, rfl⟩ | ⟨notHere, notUp, rfl, isDir⟩
  · rw [if_pos same]
    exact .inr
  · rw [if_neg (by decide), if_pos rfl]
    exact .inr
  · rw [if_neg notHere, if_neg notUp]
    exact Or.imp_left fun same => same ▸ isDir

theorem entered_cons_of_step {here : Location} (went : t.step at_ name = .ok here)
    (entered : Path.Entered loc here names) : Path.Entered loc at_ (name :: names) := by
  rw [Path.Entered]
  rcases step_cases went with ⟨same, rfl⟩ | ⟨rfl, rfl⟩ | ⟨notHere, notUp, rfl, -⟩
  · rwa [if_pos same]
  · rwa [if_neg (by decide), if_pos rfl]
  · rw [if_neg notHere, if_neg notUp]
    exact .inr entered

theorem step_of_entered {here : Location} (went : t.step at_ name = .ok here)
    (dirs : ∀ loc, Path.Entered loc at_ (name :: names) → t.node? loc = some .dir →
      next.node? loc = some .dir) : next.step at_ name = .ok here := by
  rcases step_cases went with ⟨same, rfl⟩ | ⟨up, rfl⟩ | ⟨notHere, notUp, rfl, isDir⟩
  · rw [step, if_pos same]
  · rw [step, if_neg (by simp [up]), if_pos up]
  · refine step_of_dirs (fun isDir => dirs _ ?_ isDir) went
    rw [Path.Entered, if_neg notHere, if_neg notUp]
    exact .inl rfl

theorem node?_of_walk (walked : t.walk slash at_ names = .ok place) (there : t.HasDir place)
    (entered : Path.Entered loc at_ names) : t.node? loc = some .dir := by
  induction names generalizing at_ with
  | nil => exact entered.elim
  | cons name names ih =>
    cases names with
    | nil =>
      rw [walk] at walked
      rw [Path.Entered] at entered
      split at walked
      · rename_i here
        rw [if_pos here] at entered
        exact entered.elim
      · rename_i notHere
        rw [if_neg notHere] at entered
        split at walked
        · rename_i up
          rw [if_pos up] at entered
          exact entered.elim
        · rename_i notUp
          rw [if_neg notUp] at entered
          split at walked
          · cases walked
          · cases walked
            rcases entered with rfl | none_
            · exact there
            · exact none_.elim
    | cons other names =>
      rw [walk_cons name (by simp)] at walked
      obtain ⟨here, went, walked⟩ := exists_ok_of_bind walked
      rcases entered_of_step went entered with isDir | entered
      · exact isDir
      · exact ih walked entered

theorem node?_of_walkLost (walked : t.walkLost slash names = .ok place) (there : t.HasDir place)
    (entered : Path.Entered loc t.cwd names) : t.node? loc = some .dir := by
  induction names with
  | nil => exact entered.elim
  | cons name names ih =>
    rw [walkLost] at walked
    rw [Path.Entered] at entered
    split at walked
    · rename_i here
      rw [if_pos here] at entered
      exact ih walked entered
    · rename_i notHere
      rw [if_neg notHere] at entered
      split at walked
      · rename_i up
        rw [if_pos up] at entered
        exact node?_of_walk walked there entered
      · cases walked

/-- All that is entered along the path of a directory are directories. -/
theorem node?_of_isDir (isDir : t.isDir p = true) (enters : p.Enters t.cwd loc) :
    t.node? loc = some .dir := by
  obtain ⟨place, placed, there⟩ := isDir_iff.mp isDir
  unfold Path.Enters at enters
  rw [place_eq] at placed
  split at placed
  · cases placed
  · unfold resolve at placed
    split at placed
    · rename_i root
      rw [if_pos root] at enters
      exact node?_of_walk placed there enters
    · rename_i relative
      rw [if_neg relative] at enters
      split at placed
      · exact node?_of_walkLost placed there enters
      · exact node?_of_walk placed there enters

theorem node?_of_made (made : t.Made p) (enters : p.Enters t.cwd loc) :
    t.node? loc = some .dir := by
  rcases made with empty | isDir
  · have none_ : p.names = [] := by simp [Path.names, empty, slashRuns]
    rw [Path.Enters, none_] at enters
    exact enters.elim
  · exact node?_of_isDir isDir enters

theorem walk_of_entered (walked : t.walk slash at_ names = .ok place)
    (dirs : ∀ loc, Path.Entered loc at_ names → t.node? loc = some .dir →
      next.node? loc = some .dir) : next.walk slash at_ names = .ok place := by
  induction names generalizing at_ with
  | nil => exact walked
  | cons name names ih =>
    cases names with
    | nil => simpa only [walk] using walked
    | cons other names =>
      rw [walk_cons name (by simp)] at walked ⊢
      obtain ⟨here, went, walked⟩ := exists_ok_of_bind walked
      rw [step_of_entered went dirs]
      exact ih walked fun loc entered => dirs loc (entered_cons_of_step went entered)

theorem walkLost_of_entered (walked : t.walkLost slash names = .ok place) (cwd : next.cwd = t.cwd)
    (dirs : ∀ loc, Path.Entered loc t.cwd names → t.node? loc = some .dir →
      next.node? loc = some .dir) : next.walkLost slash names = .ok place := by
  induction names with
  | nil => exact walked
  | cons name names ih =>
    rw [walkLost] at walked ⊢
    simp only [Path.Entered] at dirs
    split at walked
    · rename_i here
      rw [if_pos here]
      exact ih walked fun loc entered => dirs loc (by rwa [if_pos here])
    · rename_i notHere
      rw [if_neg notHere]
      split at walked
      · rename_i up
        rw [if_pos up, cwd]
        exact walk_of_entered walked fun loc entered =>
          dirs loc (by rwa [if_neg notHere, if_pos up])
      · cases walked

/-- A path leads where it leads as long as the directories are there that it goes through. -/
theorem place_of_entered (placed : t.place p = .ok place) (cwd : next.cwd = t.cwd)
    (cwdLost : p.isAbsolute = false → next.cwdLost = t.cwdLost)
    (dirs : ∀ loc, p.Enters t.cwd loc → t.node? loc = some .dir → next.node? loc = some .dir) :
    next.place p = .ok place := by
  unfold Path.Enters at dirs
  rw [place_eq] at placed ⊢
  split at placed
  · cases placed
  · unfold resolve at placed ⊢
    split at placed
    · rename_i root
      rw [if_pos root] at dirs ⊢
      exact walk_of_entered placed dirs
    · rename_i relative
      rw [if_neg relative] at dirs ⊢
      rw [cwd, cwdLost (by simpa using relative)]
      split at placed
      · rename_i lost
        rw [if_pos lost]
        exact walkLost_of_entered placed cwd dirs
      · rename_i there
        rw [if_neg there]
        exact walk_of_entered placed dirs

/-- The entry of a name is entered along the path to it. -/
theorem entered_of_walk {after : Bool}
    (walked : t.walk slash at_ names = .ok (.entry parent name after)) :
    Path.Entered (parent ++ [name]) at_ names := by
  induction names generalizing at_ with
  | nil => cases walked
  | cons first names ih =>
    cases names with
    | nil =>
      rw [walk] at walked
      rw [Path.Entered]
      split at walked
      · cases walked
      · rename_i notHere
        split at walked
        · cases walked
        · rename_i notUp
          split at walked
          · cases walked
          · cases walked
            rw [if_neg notHere, if_neg notUp]
            exact .inl rfl
    | cons other names =>
      rw [walk_cons first (by simp)] at walked
      obtain ⟨here, went, walked⟩ := exists_ok_of_bind walked
      exact entered_cons_of_step went (ih walked)

theorem entered_of_walkLost {after : Bool}
    (walked : t.walkLost slash names = .ok (.entry parent name after)) :
    Path.Entered (parent ++ [name]) t.cwd names := by
  induction names with
  | nil => cases walked
  | cons first names ih =>
    rw [walkLost] at walked
    rw [Path.Entered]
    split at walked
    · rename_i here
      rw [if_pos here]
      exact ih walked
    · rename_i notHere
      rw [if_neg notHere]
      split at walked
      · rename_i up
        rw [if_pos up]
        exact entered_of_walk walked
      · cases walked

theorem enters_of_place {after : Bool} (placed : t.place p = .ok (.entry parent name after)) :
    p.Enters t.cwd (parent ++ [name]) := by
  unfold Path.Enters
  rw [place_eq] at placed
  split at placed
  · cases placed
  · unfold resolve at placed
    split at placed
    · rename_i root
      rw [if_pos root]
      exact entered_of_walk placed
    · rename_i relative
      rw [if_neg relative]
      split at placed
      · exact entered_of_walkLost placed
      · exact entered_of_walk placed

end Walking

section Making

variable {places : Location → Prop}

theorem enters_of_makeDir (made : t.makeDir p = .ok next) : p.Enters t.cwd (p.lead t.cwd) := by
  unfold makeDir at made
  split at made
  · cases made
  · cases made
  · cases made
  · rename_i parent name slash placed
    rw [← place_entry placed]
    exact enters_of_place placed

/-- To make directories makes them only where the path enters. -/
theorem alters_makeDirs (p : Path) (t : Tree) :
    t.Alters (t.makeDirs p).2 places (p.Enters t.cwd) := by
  refine alters_makeDirsAlong _ t fun q among x next same made => ?_
  have enters := enters_of_makeDir made
  rw [same] at enters
  exact (Path.above_of_mem_ancestry among).enters enters

/-- All that is entered along a path is a directory once its directory has been made. -/
theorem node?_of_makeDirs (made : t.makeDirs p = (.ok (), next)) (enters : p.Enters t.cwd loc) :
    next.node? loc = some .dir := by
  have alters : t.Alters (t.makeDirs p).2 (fun _ => False) _ := alters_makeDirs p t
  rw [made] at alters
  exact node?_of_made (made_of_makeDirs made) (alters.cwd ▸ enters)

theorem node?_makeDirs_of_not_enters (outside : ¬ p.Enters t.cwd loc) :
    (t.makeDirs p).2.node? loc = t.node? loc :=
  ((alters_makeDirs p t : t.Alters _ (fun _ => False) _).node loc id).resolve_right
    fun made => outside made.1

/-- What can be made in one tree can be made in another that has all of its directories, and no
other files. -/
theorem makeLast_of_keeps (made : t.makeLast p = (.ok (), next))
    (more : t.KeepsAll x fun _ => False) : ∃ last, x.makeLast p = (.ok (), last) := by
  by_cases isDir : t.isDir p = true
  · exact ⟨x, makeLast_of_isDir (isDir_of_keepsDirs more.toKeepsDirs isDir)⟩
  · unfold makeLast at made
    split at made
    · rename_i done
      unfold makeDir at done
      split at done
      · cases done
      · cases done
      · cases done
      · rename_i parent name slash placed
        split at done
        · cases done
        · rename_i above
          split at done
          · cases done
          · rename_i free
            have placed' := place_of_keepsDirs more.toKeepsDirs placed
            have above' := more.dirs _ (Decidable.not_not.mp above)
            have noFile : x.content? (parent ++ [name]) = none := by
              rw [more.content _ id, content?, free]
              rfl
            cases there : x.node? (parent ++ [name]) with
            | none => exact ⟨_, by simp [makeLast, makeDir, placed', above', there]; rfl⟩
            | some n => cases n with
              | dir => exact ⟨x, makeLast_of_isDir (isDir_iff.mpr ⟨_, placed', there⟩)⟩
              | file content =>
                rw [content?_of_file there] at noFile
                cases noFile
    · split at made
      · contradiction
      · cases made

/-- To make directories takes nothing away and writes no file. -/
theorem keepsAll_makeDirs (p : Path) (t : Tree) (places : Location → Prop) :
    t.KeepsAll (t.makeDirs p).2 places :=
  ⟨keepsDirs_makeDirsAlong p.ancestry t, (alters_makeDirs p t).keeps.content⟩

theorem keepsAll_of_makeDirs {result : Except IoFault Unit} (made : t.makeDirs p = (result, next))
    (places : Location → Prop) : t.KeepsAll next places := by
  have keeps := keepsAll_makeDirs p t places
  rwa [made] at keeps

/-- Where there was more in one of two trees, there still is once the same directory was made in
both. -/
theorem keepsAll_of_makeDirs_both (more : t.KeepsAll x fun _ => False)
    (made : t.makeDirs p = (.ok (), next)) (made' : x.makeDirs p = (.ok (), last)) :
    next.KeepsAll last fun _ => False := by
  have first := keepsAll_of_makeDirs made fun _ => False
  have second := keepsAll_of_makeDirs made' fun _ => False
  refine ⟨⟨?_, ?_, fun loc isDir => ?_⟩, fun loc none_ => ?_⟩
  · rw [second.cwd, more.cwd, first.cwd]
  · rw [second.cwdLost, more.cwdLost, first.cwdLost]
  · by_cases enters : p.Enters t.cwd loc
    · exact node?_of_makeDirs made' (more.cwd ▸ enters)
    · have same := node?_makeDirs_of_not_enters enters
      rw [made] at same
      exact second.dirs loc (more.dirs loc (same.symm.trans isDir))
  · rw [second.content loc none_, more.content loc none_, first.content loc none_]

theorem makeDirs_iff_of_missing (named : p.text ≠ "") (missing : t.makeDir p = .error .notFound)
    (up : p.parent? = some q) : t.makeDirs p = (.ok (), next) ↔
      ∃ middle, t.makeDirs q = (.ok (), middle) ∧ middle.makeLast p = (.ok (), next) := by
  rw [makeDirs, Path.ancestry_of_parent? up named, makeDirsAlong_iff_of_missing named missing]
  rfl

theorem makeDirs_of_ne (named : p.text ≠ "") (other : t.makeDir p ≠ .error .notFound) :
    t.makeDirs p = t.makeLast p :=
  makeDirsAlong_of_ne named other

theorem makeDirs_of_place (named : p.text ≠ "") (placed : t.place p = .ok place) :
    t.makeDirs p = t.makeLast p := by
  by_cases missing : t.makeDir p = .error .notFound
  · cases up : p.parent? with
    | none => exact absurd missing (makeDir_of_top up named)
    | some q =>
      have above := makeDirs_of_made (made_of_parent? placed up)
      rw [makeDirs, Path.ancestry_of_parent? up named, makeDirsAlong_of_missing named missing,
        show makeDirsAlong q.ancestry t = (.ok (), t) from above]
  · exact makeDirs_of_ne named missing

/-- A directory can be made wherever it can be made with fewer directories and the same files. -/
theorem makeDirs_of_keeps (made : t.makeDirs p = (.ok (), next))
    (more : t.KeepsAll x fun _ => False) : ∃ last, x.makeDirs p = (.ok (), last) := by
  induction size : p.text.length using Nat.strong_induction_on generalizing p next with
  | _ size ih =>
    by_cases named : p.text = ""
    · exact ⟨x, makeDirs_of_made (.inl named)⟩
    · by_cases missing : t.makeDir p = .error .notFound
      · cases up : p.parent? with
        | none => exact absurd missing (makeDir_of_top up named)
        | some q =>
          obtain ⟨middle, above, done⟩ := (makeDirs_iff_of_missing named missing up).mp made
          obtain ⟨middle', above'⟩ := ih _ (size ▸ Path.length_of_parent? up named) above rfl
          have kept := keepsAll_of_makeDirs above' fun _ => False
          obtain ⟨last, done'⟩ :=
            makeLast_of_keeps done (keepsAll_of_makeDirs_both more above above')
          cases placed : x.place p with
          | ok place =>
            rw [makeDirs_of_made (made_of_parent? placed up)] at above'
            cases above'
            exact ⟨last, (makeDirs_of_place named placed).trans done'⟩
          | error e =>
            by_cases absent : e = .notFound
            · subst absent
              exact ⟨last, (makeDirs_iff_of_missing named (makeDir_of_error placed) up).mpr
                ⟨middle', above', done'⟩⟩
            · -- what is refused for another reason is refused with more directories, too
              have refused := place_error_of_keeps kept.toKeepsDirs kept.toKeeps placed absent
              rw [makeLast_of_error refused] at done'
              cases done'
      · rw [makeDirs_of_ne named missing] at made
        obtain ⟨place, placed⟩ := exists_place_of_makeLast made
        obtain ⟨last, done⟩ := makeLast_of_keeps made more
        exact ⟨last,
          (makeDirs_of_place named (place_of_keepsDirs more.toKeepsDirs placed)).trans done⟩

end Making

end Files.Tree
end OtaAgent
