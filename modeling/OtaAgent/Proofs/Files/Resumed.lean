import OtaAgent.Proofs.Files.Alike
import OtaAgent.Proofs.Files.Opened
import OtaAgent.Proofs.Path.Above

set_option autoImplicit false

namespace OtaAgent.Files.Tree

variable {t x next : Tree} {p q : Path} {at_ loc : Location} {n : String}
  {names more : List String} {slash after : Bool} {place : Place}

def HasDir (t : Tree) : Place → Prop
  | .entry parent name _ => t.node? (parent ++ [name]) = some .dir
  | .directory _ | .lost => True

theorem isDir_iff : t.isDir p = true ↔ ∃ place, t.place p = .ok place ∧ t.HasDir place := by
  unfold isDir dirAt
  cases placed : t.place p with
  | error e => simp
  | ok place => cases place with
    | directory at_ => simp [HasDir]
    | lost => simp [HasDir]
    | entry parent name slash =>
      cases node : t.node? (parent ++ [name]) with
      | none => simp [HasDir, node]
      | some n => cases n <;> simp [HasDir, node]

theorem isDir_of_keepsDirs (keeps : t.KeepsDirs next) (isDir : t.isDir p = true) :
    next.isDir p = true := by
  obtain ⟨place, placed, there⟩ := isDir_iff.mp isDir
  refine isDir_iff.mpr ⟨place, place_of_keepsDirs keeps placed, ?_⟩
  cases place with
  | entry parent name slash => exact keeps.dirs _ there
  | directory at_ => trivial
  | lost => trivial

section Parents

/-- A name that others follow leads to a directory if none follow, too. -/
theorem hasDir_of_step (went : t.step at_ n = .ok loc) :
    ∃ here, t.walk after at_ [n] = .ok here ∧ t.HasDir here := by
  unfold step at went
  rw [walk]
  split at went
  · rename_i here
    exact ⟨_, if_pos here, trivial⟩
  · rename_i notHere
    rw [if_neg notHere]
    split at went
    · rename_i up
      exact ⟨_, if_pos up, trivial⟩
    · rename_i notUp
      rw [if_neg notUp]
      split at went
      · cases went
      · rename_i fits
        rw [if_neg fits]
        split at went
        · rename_i isDir
          exact ⟨_, rfl, isDir⟩
        · cases went
        · cases went

/-- A walk that goes on gets to a directory first. -/
theorem hasDir_of_walk (walked : t.walk slash at_ (names ++ more) = .ok place)
    (goesOn : more ≠ []) : ∃ here, t.walk after at_ names = .ok here ∧ t.HasDir here := by
  induction names generalizing at_ with
  | nil => exact ⟨.directory at_, rfl, trivial⟩
  | cons name names ih =>
    rw [List.cons_append, walk_cons name (by simp [goesOn])] at walked
    obtain ⟨loc, went, walked⟩ := exists_ok_of_bind walked
    cases names with
    | nil => exact hasDir_of_step went
    | cons other names =>
      rw [walk_cons name (by simp), went]
      exact ih walked

theorem hasDir_of_walkLost (walked : t.walkLost slash (names ++ more) = .ok place)
    (goesOn : more ≠ []) : ∃ here, t.walkLost after names = .ok here ∧ t.HasDir here := by
  induction names with
  | nil => exact ⟨.lost, rfl, trivial⟩
  | cons name names ih =>
    rw [List.cons_append, walkLost] at walked
    rw [walkLost]
    split at walked
    · rename_i here
      rw [if_pos here]
      exact ih walked
    · rename_i notHere
      rw [if_neg notHere]
      split at walked
      · rename_i up
        rw [if_pos up]
        exact hasDir_of_walk walked goesOn
      · cases walked

theorem hasDir_of_resolve {absolute : Bool}
    (resolved : t.resolve absolute slash (names ++ more) = .ok place) (goesOn : more ≠ []) :
    ∃ here, t.resolve absolute after names = .ok here ∧ t.HasDir here := by
  unfold resolve at resolved ⊢
  split at resolved
  · rename_i root
    rw [if_pos root]
    exact hasDir_of_walk resolved goesOn
  · rename_i relative
    rw [if_neg relative]
    split at resolved
    · rename_i lost
      rw [if_pos lost]
      exact hasDir_of_walkLost resolved goesOn
    · rename_i there
      rw [if_neg there]
      exact hasDir_of_walk resolved goesOn

/-- There is nothing to make at `p`: it is a directory, or says nothing. -/
def Made (t : Tree) (p : Path) : Prop := p.text = "" ∨ t.isDir p = true

theorem Made.of_keepsDirs (made : t.Made p) (keeps : t.KeepsDirs next) : next.Made p :=
  made.imp_right (isDir_of_keepsDirs keeps)

/-- A path that leads somewhere leads through its parent. -/
theorem made_of_parent? (placed : t.place p = .ok place) (up : p.parent? = some q) :
    t.Made q := by
  have absolute := (Path.above_of_parent? up).isAbsolute
  rcases Path.text_of_parent? up with ⟨empty, -⟩ | ⟨root, -⟩ | ⟨full, more, after, goesOn⟩
  · exact .inl (by simpa using empty)
  · right
    obtain rfl : q = ⟨"/"⟩ := congrArg Path.mk (String.toList_injective root)
    exact isDir_iff.mpr ⟨.directory [], rfl, trivial⟩
  · right
    rw [place_eq] at placed
    split at placed
    · cases placed
    · rename_i clean
      have names : p.names = q.names ++ (Path.mk (String.ofList more)).names := by
        simp [Path.names, after, slashRuns_append]
      rw [names, ← absolute] at placed
      obtain ⟨here, resolved, there⟩ := hasDir_of_resolve placed goesOn
      refine isDir_iff.mpr ⟨here, ?_, there⟩
      have text : p.text = q.text ++ String.ofList ('/' :: more) :=
        String.toList_injective (by simp [after])
      rw [place_eq, textFault?_of_append text clean full]
      exact resolved

end Parents

section Making

theorem makeDir_of_error {e : IoFault} (refused : t.place p = .error e) :
    t.makeDir p = .error e := by
  rw [makeDir, refused]

/-- A directory that is there is not made. -/
theorem makeDir_of_isDir (isDir : t.isDir p = true) :
    t.makeDir p = .error .alreadyExists ∨ t.makeDir p = .error .notFound := by
  obtain ⟨place, placed, there⟩ := isDir_iff.mp isDir
  unfold makeDir
  rw [placed]
  cases place with
  | directory at_ => exact .inl rfl
  | lost => exact .inl rfl
  | entry parent name slash =>
    dsimp only
    split
    · exact .inr rfl
    · rw [show t.node? (parent ++ [name]) = some .dir from there]
      exact .inl rfl

theorem walk_here (each : ∀ n ∈ names, n = ".") :
    t.walk slash at_ names = .ok (.directory at_) := by
  induction names with
  | nil => rfl
  | cons name names ih =>
    have here := each name List.mem_cons_self
    have rest := ih fun n among => each n (List.mem_cons_of_mem _ among)
    cases names with
    | nil => rw [walk, if_pos here]
    | cons other names =>
      rw [walk_cons name (by simp), step, if_pos here]
      exact rest

theorem makeDir_of_top (top : p.parent? = none) (named : p.text ≠ "") :
    t.makeDir p ≠ .error .notFound := by
  obtain ⟨absolute, each⟩ := Path.names_of_top top named
  have full : p.text.toList ≠ [] := by simpa using named
  have placed := t.place_eq p
  rw [resolve, if_pos absolute, walk_here each, textFault?, if_neg full] at placed
  unfold makeDir
  rw [placed]
  split
  · rename_i refused
    intro same
    cases same
    split at refused
    · rename_i fault
      cases refused
      split at fault
      · cases fault
      · split at fault <;> cases fault
    · cases refused
  · nofun
  · nofun
  · rename_i refused
    split at refused <;> cases refused

def makeLast (t : Tree) (p : Path) : Except IoFault Unit × Tree :=
  match t.makeDir p with
  | .ok t => (.ok (), t)
  | .error e => (if t.isDir p then .ok () else .error e, t)

variable {up : List Path}

theorem makeDirsAlong_of_missing (named : p.text ≠ "") (missing : t.makeDir p = .error .notFound) :
    makeDirsAlong (p :: up) t = match makeDirsAlong up t with
      | (.error e, t) => (.error e, t)
      | (.ok (), t) => t.makeLast p := by
  rw [makeDirsAlong, if_neg named, missing]
  rfl

theorem makeDirsAlong_iff_of_missing (named : p.text ≠ "")
    (missing : t.makeDir p = .error .notFound) : makeDirsAlong (p :: up) t = (.ok (), next) ↔
      ∃ middle, makeDirsAlong up t = (.ok (), middle) ∧ middle.makeLast p = (.ok (), next) := by
  rw [makeDirsAlong_of_missing named missing]
  cases ran : makeDirsAlong up t with
  | mk result middle => cases result <;> simp

theorem makeDirsAlong_of_ne (named : p.text ≠ "") (other : t.makeDir p ≠ .error .notFound) :
    makeDirsAlong (p :: up) t = t.makeLast p := by
  rw [makeDirsAlong, if_neg named, makeLast]
  cases made : t.makeDir p with
  | ok next => rfl
  | error e =>
    cases e with
    | notFound => exact absurd made other
    | _ => rfl

theorem makeLast_of_isDir (isDir : t.isDir p = true) : t.makeLast p = (.ok (), t) := by
  unfold makeLast
  rcases makeDir_of_isDir isDir with there | missing
  · simp [there, isDir]
  · simp [missing, isDir]

theorem makeLast_of_error {e : IoFault} (refused : t.place p = .error e) :
    t.makeLast p = (.error e, t) := by
  have noDir : ¬ t.isDir p = true := by
    rw [isDir_iff, refused]
    rintro ⟨_, placed, -⟩
    cases placed
  rw [makeLast, makeDir_of_error refused]
  simp [noDir]

theorem eq_of_makeLast_error {e : IoFault} (failed : t.makeLast p = (.error e, x)) : x = t := by
  unfold makeLast at failed
  split at failed
  · cases failed
  · split at failed <;> cases failed
    rfl

theorem exists_place_of_makeLast (made : t.makeLast p = (.ok (), next)) :
    ∃ place, t.place p = .ok place := by
  cases placed : t.place p with
  | ok place => exact ⟨place, rfl⟩
  | error e =>
    rw [makeLast_of_error placed] at made
    cases made

theorem isDir_of_makeDir (made : t.makeDir p = .ok next) : next.isDir p = true := by
  have keeps := keepsDirs_makeDir made
  unfold makeDir at made
  split at made
  · cases made
  · cases made
  · cases made
  · rename_i parent name slash placed
    split at made
    · cases made
    · split at made
      · cases made
      · cases made
        refine isDir_iff.mpr ⟨_, place_of_keepsDirs keeps placed, ?_⟩
        rw [HasDir, node?_put t _ _ _ (by simp), if_pos rfl]

theorem isDir_of_makeLast (made : t.makeLast p = (.ok (), next)) : next.isDir p = true := by
  unfold makeLast at made
  split at made
  · rename_i there
    cases made
    exact isDir_of_makeDir there
  · split at made
    · rename_i there
      cases made
      exact there
    · cases made

theorem made_of_makeDirsAlong {fuel : Nat}
    (made : makeDirsAlong (Path.ancestry.go fuel p) t = (.ok (), next)) : next.Made p := by
  cases fuel with
  | zero => cases made
  | succ fuel =>
    rw [Path.ancestry.go] at made
    by_cases named : p.text = ""
    · exact .inl named
    · right
      by_cases missing : t.makeDir p = .error .notFound
      · obtain ⟨middle, -, last⟩ := (makeDirsAlong_iff_of_missing named missing).mp made
        exact isDir_of_makeLast last
      · rw [makeDirsAlong_of_ne named missing] at made
        exact isDir_of_makeLast made

/-- Where there is nothing to make, nothing is made. -/
theorem makeDirsAlong_of_made {fuel : Nat} (long : p.text.length < fuel) (made : t.Made p) :
    makeDirsAlong (Path.ancestry.go fuel p) t = (.ok (), t) := by
  induction fuel generalizing p with
  | zero => omega
  | succ fuel ih =>
    rw [Path.ancestry.go]
    by_cases named : p.text = ""
    · rw [makeDirsAlong, if_pos named]
    · have isDir := made.resolve_left named
      obtain ⟨place, placed, -⟩ := isDir_iff.mp isDir
      by_cases missing : t.makeDir p = .error .notFound
      · cases up : p.parent? with
        | none => exact absurd missing (makeDir_of_top up named)
        | some q =>
          have shorter := Path.length_of_parent? up named
          exact (makeDirsAlong_iff_of_missing named missing).mpr
            ⟨t, ih (by omega) (made_of_parent? placed up), makeLast_of_isDir isDir⟩
      · rw [makeDirsAlong_of_ne named missing]
        exact makeLast_of_isDir isDir

end Making

section Refusals

variable {e : IoFault}

theorem step_error_of_keeps (files : t.Keeps next fun _ => False)
    (refused : t.step at_ n = .error e) (other : e ≠ .notFound) : next.step at_ n = .error e := by
  unfold step at refused ⊢
  split
  · rename_i here
    rwa [if_pos here] at refused
  · rename_i notHere
    rw [if_neg notHere] at refused
    split
    · rename_i up
      rwa [if_pos up] at refused
    · rename_i notUp
      rw [if_neg notUp] at refused
      split at refused
      · rename_i long
        rwa [if_pos long]
      · rename_i fits
        rw [if_neg fits]
        split at refused
        · cases refused
        · rename_i content isFile
          have still := (files.content _ id).trans (content?_of_file isFile)
          rw [node?_of_content? still]
          exact refused
        · cases refused
          exact absurd rfl other

theorem walk_error_of_keeps (dirs : t.KeepsDirs next) (files : t.Keeps next fun _ => False)
    (refused : t.walk slash at_ names = .error e) (other : e ≠ .notFound) :
    next.walk slash at_ names = .error e := by
  induction names generalizing at_ with
  | nil => cases refused
  | cons name names ih =>
    cases names with
    | nil => rwa [walk] at refused ⊢
    | cons following names =>
      rw [walk_cons name (by simp)] at refused ⊢
      cases went : t.step at_ name with
      | ok loc =>
        rw [went] at refused
        rw [step_of_dirs (dirs.dirs _) went]
        exact ih refused
      | error cause =>
        rw [went] at refused
        cases refused
        rw [step_error_of_keeps files went other]
        rfl

theorem walkLost_error_of_keeps (dirs : t.KeepsDirs next) (files : t.Keeps next fun _ => False)
    (refused : t.walkLost slash names = .error e) (other : e ≠ .notFound) :
    next.walkLost slash names = .error e := by
  induction names with
  | nil => cases refused
  | cons name names ih =>
    rw [walkLost] at refused ⊢
    split
    · rename_i here
      exact ih (by rwa [if_pos here] at refused)
    · rename_i notHere
      rw [if_neg notHere] at refused
      split
      · rename_i up
        rw [if_pos up] at refused
        rw [dirs.cwd]
        exact walk_error_of_keeps dirs files refused other
      · rename_i notUp
        rwa [if_neg notUp] at refused

/-- Directories that are made on the way make no difference to a path that is refused for other
reasons than one that is missing. -/
theorem place_error_of_keeps (dirs : t.KeepsDirs next) (files : t.Keeps next fun _ => False)
    (refused : t.place p = .error e) (other : e ≠ .notFound) : next.place p = .error e := by
  rw [place_eq] at refused ⊢
  split at refused
  · exact refused
  · unfold resolve at refused ⊢
    rw [dirs.cwd, dirs.cwdLost]
    split at refused
    · rename_i root
      rw [if_pos root]
      exact walk_error_of_keeps dirs files refused other
    · rename_i relative
      rw [if_neg relative]
      split at refused
      · rename_i lost
        rw [if_pos lost]
        exact walkLost_error_of_keeps dirs files refused other
      · rename_i there
        rw [if_neg there]
        exact walk_error_of_keeps dirs files refused other

end Refusals

section Resuming

/-- What could not be made cannot be made from what the attempt left. -/
theorem makeDirsAlong_of_failed {fuel : Nat} {e : IoFault} (long : p.text.length < fuel)
    (failed : makeDirsAlong (Path.ancestry.go fuel p) t = (.error e, x)) :
    makeDirsAlong (Path.ancestry.go fuel p) x ≠ (.ok (), next) := by
  induction fuel generalizing p e next with
  | zero => omega
  | succ fuel ih =>
    rw [Path.ancestry.go] at failed ⊢
    by_cases named : p.text = ""
    · rw [makeDirsAlong, if_pos named] at failed
      cases failed
    · by_cases missing : t.makeDir p = .error .notFound
      · cases up : p.parent? with
        | none => exact absurd missing (makeDir_of_top up named)
        | some q =>
          have shorter := Path.length_of_parent? up named
          have short : q.text.length < fuel := by omega
          simp only [up] at failed ⊢
          rw [makeDirsAlong_of_missing named missing] at failed
          -- either the parents could not be made, or only `p` itself
          have stuck (middle : Tree) (above : makeDirsAlong (Path.ancestry.go fuel q) x =
              (.ok (), middle)) (last : middle.makeLast p = (.ok (), next)) : False := by
            split at failed
            · rename_i cause left ran
              cases failed
              exact ih short ran above
            · rename_i left ran
              obtain rfl := eq_of_makeLast_error failed
              rw [makeDirsAlong_of_made short (made_of_makeDirsAlong ran)] at above
              cases above
              rw [failed] at last
              cases last
          by_cases again : x.makeDir p = .error .notFound
          · rw [ne_eq, makeDirsAlong_iff_of_missing named again]
            rintro ⟨middle, above, last⟩
            exact stuck middle above last
          · rw [makeDirsAlong_of_ne named again]
            intro last
            obtain ⟨place, placed⟩ := exists_place_of_makeLast last
            exact stuck x (makeDirsAlong_of_made short (made_of_parent? placed up)) last
      · rw [makeDirsAlong_of_ne named missing] at failed
        obtain rfl := eq_of_makeLast_error failed
        rw [makeDirsAlong_of_ne named missing, failed]
        intro same
        cases same

theorem makeDirsAlong_resumes {fuel : Nat} (long : p.text.length < fuel)
    (left : LeavesAlong (Path.ancestry.go fuel p) t x) :
    makeDirsAlong (Path.ancestry.go fuel p) x = (.ok (), next) ↔
      makeDirsAlong (Path.ancestry.go fuel p) t = (.ok (), next) := by
  induction fuel generalizing p next with
  | zero => omega
  | succ fuel ih =>
    cases left with
    | whole =>
      cases ran : makeDirsAlong (Path.ancestry.go (fuel + 1) p) t with
      | mk result last => cases result with
        | ok done =>
          rw [makeDirsAlong_of_made long (made_of_makeDirsAlong ran)]
        | error e =>
          have failed : makeDirsAlong (Path.ancestry.go (fuel + 1) p) last ≠ (.ok (), next) :=
            makeDirsAlong_of_failed long ran
          simpa using failed
    | above named missing earlier =>
      rw [Path.ancestry.go, makeDirsAlong_iff_of_missing named missing]
      cases up : p.parent? with
      | none => exact absurd missing (makeDir_of_top up named)
      | some q =>
        have shorter := Path.length_of_parent? up named
        have short : q.text.length < fuel := by omega
        simp only [up] at earlier ⊢
        have resumes (middle : Tree) :
            makeDirsAlong (Path.ancestry.go fuel q) x = (.ok (), middle) ↔
              makeDirsAlong (Path.ancestry.go fuel q) t = (.ok (), middle) := ih short earlier
        by_cases again : x.makeDir p = .error .notFound
        · rw [makeDirsAlong_iff_of_missing named again]
          simp only [resumes]
        · rw [makeDirsAlong_of_ne named again]
          cases placed : x.place p with
          | ok place =>
            have above := makeDirsAlong_of_made short (made_of_parent? placed up)
            rw [resumes] at above
            simp [above]
          | error e =>
            have other : e ≠ .notFound := by
              rintro rfl
              exact again (makeDir_of_error placed)
            rw [makeLast_of_error placed]
            constructor
            · intro same
              cases same
            · rintro ⟨middle, ran, last⟩
              have ran := (resumes middle).mpr ran
              have dirs := keepsDirs_makeDirsAlong (Path.ancestry.go fuel q) x
              have files : x.Keeps _ fun _ => False :=
                (alters_makeDirsAlong (Path.ancestry.go fuel q) x fun _ _ _ _ _ _ => trivial :
                  x.Alters _ _ fun _ => True).keeps
              rw [ran] at dirs files
              rw [makeLast_of_error (place_error_of_keeps dirs files placed other)] at last
              cases last

theorem makeDirs_of_made (made : t.Made p) : t.makeDirs p = (.ok (), t) :=
  makeDirsAlong_of_made (Nat.lt_succ_self _) made

theorem made_of_makeDirs (made : t.makeDirs p = (.ok (), next)) : next.Made p :=
  made_of_makeDirsAlong made

end Resuming

end OtaAgent.Files.Tree

namespace OtaAgent.Files

/-- Directories that are made again after a cut are made as they would have been without it. -/
theorem Op.Leaves.makeDirs_iff {p : Path} {t x next : Tree} (left : Op.Leaves (.makeDirs p) t x) :
    x.makeDirs p = (.ok (), next) ↔ t.makeDirs p = (.ok (), next) := by
  cases left with
  | before => exact .rfl
  | after => exact Tree.makeDirsAlong_resumes (Nat.lt_succ_self _) (.whole p.ancestry t)
  | making along => exact Tree.makeDirsAlong_resumes (Nat.lt_succ_self _) along

namespace Job

variable {ε α β : Type} {t x : Tree}

/-- Begun again after a cut, the job ends as it would have ended; begun again after it has ended, it
changes nothing. -/
structure Resumes (job : Job ε α) : Prop where
  builds : ∀ t x, t.Sound → job.Leaves t x → t.KeepsDirs x
  again : ∀ t x a next, job.Leaves t x →
    (job.runOn x = (.ok a, next) ↔ job.runOn t = (.ok a, next))
  settled : ∀ t x a next, job.runOn t = (.ok a, next) → next.KeepsDirs x →
    job.runOn x = (.ok a, x)

theorem runOn_makeDirs_iff {p : Path} {fault : IoFault → ε} {bytes : Bytes} {next : Tree} :
    runOn (attempt (.makeDirs p) fault) t = (.ok bytes, next) ↔
      bytes = [] ∧ t.makeDirs p = (.ok (), next) := by
  rw [runOn_attempt, Op.apply, silent]
  cases t.makeDirs p with
  | mk result made => cases result with
    | ok u => simp [Except.map, mapError_ok, eq_comm]
    | error e => simp [Except.map, mapError_error]

theorem Resumes.pure (a : α) : Resumes (Pure.pure a : Job ε α) where
  builds t x _ left := leaves_pure.mp left ▸ .refl t
  again t x _ next left := by rw [leaves_pure.mp left]
  settled t x _ next ran _ := by
    cases ran
    rfl

theorem resumes_makeDirs (p : Path) (fault : IoFault → ε) :
    Resumes (attempt (.makeDirs p) fault) where
  builds t x sound left := (leaves_attempt.mp left).keepsDirs trivial sound
  again t x bytes next left := by
    rw [runOn_makeDirs_iff, runOn_makeDirs_iff, (leaves_attempt.mp left).makeDirs_iff]
  settled t x bytes next ran keeps := by
    rw [runOn_makeDirs_iff] at ran ⊢
    exact ⟨ran.1, Tree.makeDirs_of_made ((Tree.made_of_makeDirs ran.2).of_keepsDirs keeps)⟩

/-- What is answered makes no difference. -/
theorem Resumes.map {job : Job ε α} (resumes : Resumes job) (f : α → β) :
    Resumes (do return f (← job)) where
  builds t x sound left := by
    rcases leaves_bind.mp left with left | ⟨a, next, ran, later⟩
    · exact resumes.builds t x sound left
    · have whole := resumes.builds t _ sound (leaves_runOn job t)
      rw [ran] at whole
      exact leaves_pure.mp later ▸ whole
  again t x b next left := by
    have first : job.Leaves t x := by
      rcases leaves_bind.mp left with left | ⟨a, last, ran, later⟩
      · exact left
      · have whole := leaves_runOn job t
        rw [ran] at whole
        exact leaves_pure.mp later ▸ whole
    have goes {y z : Tree} (same : ∀ a, job.runOn y = (.ok a, next) → job.runOn z = (.ok a, next))
        (ran : runOn (do return f (← job)) y = (.ok b, next)) :
        runOn (do return f (← job)) z = (.ok b, next) := by
      obtain ⟨a, last, begun, ran⟩ := runOn_bind_ok ran
      cases ran
      rw [runOn_bind, same a begun]
      rfl
    exact ⟨goes fun a => (resumes.again t x a next first).mp,
      goes fun a => (resumes.again t x a next first).mpr⟩
  settled t x b next ran keeps := by
    obtain ⟨a, last, begun, ran⟩ := runOn_bind_ok ran
    cases ran
    rw [runOn_bind, resumes.settled t x a next begun keeps]
    rfl

/-- A job that resumes, and then one that is granted again if it would have been. -/
theorem Resumes.restarts {job : Job ε α} {f : α → Job ε β} (resumes : Resumes job)
    (sound : t.Sound)
    (later : ∀ a next x, t.KeepsDirs next → (f a).Leaves next x → (f a).Restarts next x)
    (left : (job >>= f).Leaves t x) : (job >>= f).Restarts t x := by
  rcases leaves_bind.mp left with left | ⟨a, next, ran, left⟩
  · refine ⟨resumes.builds t x sound left, ?_⟩
    simp only [grants_bind, resumes.again t x _ _ left]
  · have begun := resumes.builds t _ sound (leaves_runOn job t)
    rw [ran] at begun
    have rest := later a next x begun left
    have again := resumes.settled t x a next ran rest.dirs
    refine ⟨begun.trans rest.dirs, ?_⟩
    rw [grants_bind, grants_bind, ran, again]
    constructor
    · rintro ⟨_, _, same, grants⟩
      cases same
      exact ⟨a, next, rfl, rest.grants.mp grants⟩
    · rintro ⟨_, _, same, grants⟩
      cases same
      exact ⟨a, x, rfl, rest.grants.mpr grants⟩

end Job

end OtaAgent.Files
