import OtaAgent.Proofs.Archive.Reading

set_option autoImplicit false

namespace OtaAgent.Archive

open Files

def CanLock (a : Archive) (t : Tree) (package : String) : Prop :=
  ∃ made locked, t.makeDirs a.versionDir = (.ok (), made) ∧
    made.touch (a.lockPath package) = .ok locked

/-- `version` can be made the current one of `package` again, of which the file says `h`. -/
structure Reinstates (a : Archive) (t : Tree) (package version : String) (h : History) : Prop where
  named : canNameFile package = true
  said : a.recorded? t package = some h
  kept : h.backups.contains version = true
  locks : a.CanLock t package
  /-- Nothing is written for a version that is the current one. -/
  writes : h.current = version ∨ a.CanWrite t package

variable {a : Archive} {package version : String} {t made locked next : Tree} {h back : History}

theorem runOn_makeVersionDir_iff :
    a.makeVersionDir.runOn t = (.ok (), made) ↔ t.makeDirs a.versionDir = (.ok (), made) := by
  cases ran : t.makeDirs a.versionDir with
  | mk result last =>
    cases result <;>
      simp [makeVersionDir, Job.runOn_bind, Op.apply, silent, ran, Except.map, mapError_ok,
        mapError_error]

theorem runOn_openLock_iff :
    (a.openLock package).runOn t = (.ok (), locked) ↔
      t.touch (a.lockPath package) = .ok locked := by
  cases ran : t.touch (a.lockPath package) <;>
    simp [openLock, Job.runOn_bind, Op.apply, settle, ran, mapError_ok, mapError_error]

/-- Where the lock is open, the path of the history leads into the same directory. -/
theorem placed_of_touch (valid : canNameFile package = true)
    (touch : made.touch (a.lockPath package) = .ok locked) :
    ∃ parent, locked.place (a.historyPath package) = .ok (.entry parent package false) := by
  obtain ⟨⟨_, _⟩, aimed, -⟩ := exists_ok_of_map touch
  obtain ⟨parent, name, placed, -, -⟩ := Tree.placed_of_target aimed
  have isName := isName_of_canNameFile valid
  have there : made.place (a.historyPath package) = .ok (.entry parent package false) := by
    refine Tree.place_sibling isName (isName_lock isName) ?_ (noNul_of_canNameFile valid) placed
    rw [String.utf8ByteSize_append, String.utf8ByteSize_append]
    omega
  exact ⟨parent, Tree.place_of_keepsDirs (Tree.keepsDirs_touch touch) there⟩

/-- Behind the lock, what is read of the history is what its file said before. -/
theorem get?_of_lock (valid : canNameFile package = true)
    (make : t.makeDirs a.versionDir = (.ok (), made))
    (touch : made.touch (a.lockPath package) = .ok locked) :
    a.get? locked package = a.recorded? t package ∧ t.Keeps locked (a.Scratch t package) := by
  have first : t.Keeps made fun _ => False :=
    within_makeVersionDir.keeps rfl (runOn_makeVersionDir_iff.mpr make)
  have second : made.Keeps locked (a.Scratch t package) :=
    (within_openLock (isName_of_canNameFile valid)).keeps first.cwd (runOn_openLock_iff.mpr touch)
  have beside := (first.imp fun _ => False.elim).trans second
  obtain ⟨parent, placed⟩ := placed_of_touch valid touch
  refine ⟨?_, beside⟩
  rw [get?_eq_recorded? valid placed, recorded?_of_keeps beside not_scratch_historyAt]

/-- A version that can be reinstated is. -/
theorem Reinstates.runOn (can : a.Reinstates t package version h) :
    ∃ next, (a.reinstate package version).runOn t = (.ok (h.goBackTo version), next) := by
  have read {made locked : Tree} (make : t.makeDirs a.versionDir = (.ok (), made))
      (touch : made.touch (a.lockPath package) = .ok locked) :
      a.get? locked package = some h :=
    (get?_of_lock can.named make touch).1.trans can.said
  by_cases current : h.current = version
  · obtain ⟨made, locked, make, touch⟩ := can.locks
    refine ⟨locked, ?_⟩
    unfold reinstate
    simp only [Job.runOn_bind, runOn_checkName can.named, runOn_makeVersionDir_iff.mpr make,
      runOn_openLock_iff.mpr touch, runOn_load_of_get? (read make touch), can.kept, current]
    rw [show h.goBackTo version = h by rw [← current]; rfl]
    rfl
  · obtain ⟨made, locked, drafted, make, touch, create⟩ := can.writes.resolve_left current
    obtain ⟨content, held⟩ := read_of_load can.named (runOn_load_of_get? (read make touch))
    have there := (Tree.placed_of_read held).2
    rw [lead_history (isName_of_canNameFile can.named)] at there
    obtain ⟨next, replaced⟩ := exists_runOn_replace can.named there create (h.goBackTo version)
    refine ⟨next, ?_⟩
    unfold reinstate
    simp [Job.runOn_bind, runOn_checkName can.named, runOn_makeVersionDir_iff.mpr make,
      runOn_openLock_iff.mpr touch, runOn_load_of_get? (read make touch), can.kept, current,
      replaced]

/-- The steps of going back to a version that is granted. -/
theorem reinstate_steps (ran : (a.reinstate package version).runOn t = (.ok back, next)) :
    canNameFile package = true ∧ ∃ made locked h, t.makeDirs a.versionDir = (.ok (), made) ∧
      made.touch (a.lockPath package) = .ok locked ∧ a.get? locked package = some h ∧
      h.backups.contains version = true ∧ back = h.goBackTo version ∧
      (h.current = version ∧ next = locked ∨
        (a.replace package back).runOn locked = (.ok (), next)) := by
  unfold reinstate at ran
  obtain ⟨_, _, named, ran⟩ := Job.runOn_bind_ok ran
  obtain ⟨valid, rfl⟩ := canNameFile_of_runOn named
  obtain ⟨_, made, make, ran⟩ := Job.runOn_bind_ok ran
  obtain ⟨_, locked, lock, ran⟩ := Job.runOn_bind_ok ran
  obtain ⟨found, read, load, ran⟩ := Job.runOn_bind_ok ran
  have unmoved := looks_load (a := a) package locked
  rw [load] at unmoved
  obtain rfl : locked = read := unmoved.symm
  cases found with
  | none => cases ran
  | some h =>
    have held : a.get? locked package = some h := by rw [get?, load]
    dsimp only at ran
    split at ran
    · obtain ⟨_, _, thrown, -⟩ := Job.runOn_bind_ok ran
      cases thrown
    · rename_i contained
      have kept : h.backups.contains version = true := by simpa using contained
      refine ⟨valid, made, locked, h, runOn_makeVersionDir_iff.mp make,
        runOn_openLock_iff.mp lock, held, kept, ?_⟩
      split at ran
      · rename_i current
        rw [Job.runOn_pure, Prod.mk.injEq, Except.ok.injEq] at ran
        obtain ⟨rfl, rfl⟩ := ran
        refine ⟨?_, .inl ⟨current, rfl⟩⟩
        rw [← current]
        rfl
      · obtain ⟨_, _, replace, ran⟩ := Job.runOn_bind_ok ran
        rw [Job.runOn_pure, Prod.mk.injEq, Except.ok.injEq] at ran
        obtain ⟨rfl, rfl⟩ := ran
        exact ⟨rfl, .inr replace⟩

/-- A version that is reinstated could be, and the history that was said is kept but for its current
version. -/
theorem reinstates_of_runOn (ran : (a.reinstate package version).runOn t = (.ok back, next)) :
    ∃ h, a.Reinstates t package version h ∧ back = h.goBackTo version := by
  obtain ⟨valid, made, locked, h, make, touch, held, kept, rfl, ends⟩ := reinstate_steps ran
  refine ⟨h, ⟨valid, ?_, kept, ⟨made, locked, make, touch⟩, ?_⟩, rfl⟩
  · exact (get?_of_lock valid make touch).1.symm.trans held
  · rcases ends with ⟨current, -⟩ | replace
    · exact .inl current
    · obtain ⟨drafted, _, create, -⟩ := replace_steps replace
      exact .inr ⟨made, locked, drafted, make, touch, create⟩

/-- What is read after a version has been reinstated is the history with that version. -/
theorem get?_of_reinstated (sound : t.Sound)
    (ran : (a.reinstate package version).runOn t = (.ok back, next)) :
    a.get? next package = some back := by
  obtain ⟨-, said, -⟩ := runOn_reinstate ran
  obtain ⟨valid, made, locked, h, make, touch, held, kept, rfl, ends⟩ := reinstate_steps ran
  rcases ends with ⟨-, rfl⟩ | replace
  · obtain ⟨parent, placed⟩ := placed_of_touch valid touch
    exact (get?_eq_recorded? valid placed).trans said
  · have first := builds_makeVersionDir.keepsDirs sound (runOn_makeVersionDir_iff.mpr make)
    have behind := first.trans (Tree.keepsDirs_touch touch)
    have reach := inReach_of_replace valid (sound.of_keepsDirs behind) replace
    exact (reach.get?_eq valid).trans said

theorem reinstates_iff :
    (∃ back next, (a.reinstate package version).runOn t = (.ok back, next)) ↔
      ∃ h, a.Reinstates t package version h := by
  constructor
  · rintro ⟨back, next, ran⟩
    obtain ⟨h, can, -⟩ := reinstates_of_runOn ran
    exact ⟨h, can⟩
  · rintro ⟨h, can⟩
    obtain ⟨next, ran⟩ := can.runOn
    exact ⟨_, next, ran⟩

end OtaAgent.Archive
