import OtaAgent.Proofs.Shelves

set_option autoImplicit false

namespace OtaAgent.Bench

open Files

variable {b : Bench} {u : Update} {t : Tree} {holds : Tree → Prop}

/-- What is staged of a package lies on its shelf. -/
theorem lead_shelf_isPrefix (isName : Path.IsName u.name) (isVersion : Path.IsName u.version)
    (cwd : Location) : (b.shelf u.name).lead cwd <+: (b.shelfPath u).lead cwd := by
  rw [shelf, (Path.below_join b.cacheDir isName).lead, (below_shelfPath isName isVersion).lead]
  exact (List.prefix_append_right_inj _).mpr (by simp)

theorem maintains_clear {dir : Path} (removed : ∀ t, holds t → holds (t.removeAll dir).2) :
    Job.Maintains holds (clear dir) := by
  intro t held
  rw [runOn_clear]
  exact removed t held

/-- Staging gives up before the copy is made, or a copy is made in the tree that the steps before
have left. -/
theorem shelve_cases (cleared : holds ((clear (b.shelf u.name)).runOn t).2)
    (makes : ∀ dir x, (b.shelfPath u).parent? = some dir → holds x → holds (x.makeDirs dir).2) :
    (∃ e last, (b.shelve u).runOn t = (.error e, last) ∧ holds last) ∨
      ∃ x next, (b.shelve u).runOn t = (.ok (), next) ∧ holds x ∧
        x.copy u.file (b.shelfPath u) = .ok next := by
  have copies (x : Tree) (held : holds x) :
      let ran := (Job.attempt (.copy u.file (b.shelfPath u))
        (Error.file (.stage u.file (b.shelfPath u))) >>= fun _ => pure ()).runOn x
      (∃ e last, ran = (.error e, last) ∧ holds last) ∨
        ∃ y next, ran = (.ok (), next) ∧ holds y ∧ y.copy u.file (b.shelfPath u) = .ok next := by
    dsimp only
    rw [Job.runOn_bind, Job.runOn_attempt, Op.apply]
    cases made : x.copy u.file (b.shelfPath u) with
    | error e => exact .inl ⟨_, x, rfl, held⟩
    | ok next => exact .inr ⟨x, next, rfl, held, made⟩
  unfold shelve
  rw [Job.runOn_bind]
  cases first : (clear (b.shelf u.name)).runOn t with
  | mk result c =>
    rw [first] at cleared
    cases result with
    | error e => exact .inl ⟨e, c, rfl, cleared⟩
    | ok _ =>
      dsimp only
      split
      · rename_i dir up
        have made := makes dir c up cleared
        rw [Job.runOn_bind, Job.runOn_attempt, Op.apply, silent]
        cases (c.makeDirs dir).1 with
        | error e => exact .inl ⟨_, _, rfl, made⟩
        | ok _ => exact copies _ made
      · exact copies c cleared

theorem maintains_shelve (clears : Job.Maintains holds (clear (b.shelf u.name)))
    (makes : ∀ dir x, (b.shelfPath u).parent? = some dir → holds x → holds (x.makeDirs dir).2)
    (copies : ∀ x next, x.copy u.file (b.shelfPath u) = .ok next → holds x → holds next) :
    Job.Maintains holds (b.shelve u) := by
  intro t held
  rcases shelve_cases (clears t held) makes with ⟨e, last, ran, still⟩ | ⟨x, next, ran, still, made⟩
  · rw [ran]
    exact still
  · rw [ran]
    exact copies x next made still

/-- An update that is not to be staged, or is staged already, leaves everything as it is. -/
theorem maintains_prepare
    (shelves : b.mode ≠ .prepareFailure → (b.shelfPath u).same u.file = false →
      Job.Maintains holds (b.shelve u)) : Job.Maintains holds (b.prepare u) := by
  intro t held
  by_cases willing : b.mode = .prepareFailure
  · rw [runOn_prepare_unwilling willing]
    exact held
  · cases other : (b.shelfPath u).same u.file with
    | true =>
      rw [runOn_prepare_staged willing other]
      exact held
    | false =>
      rw [runOn_prepare_of_other willing other]
      exact shelves willing other t held

theorem prepareInstall_eq (o : Outside) (site : Site Memory) :
    (b.agent o).prepareInstall u site = (((b.prepare u).runOn site.files).1.mapError .error,
      { site with files := ((b.prepare u).runOn site.files).2 }) :=
  rfl

/-- Where an update is ready whose file was not staged before, the file has been staged. -/
theorem shelve_of_ready {o : Outside} {site left : Site Memory} {newPath : Option Path}
    (other : (b.shelfPath u).same u.file = false)
    (called : (b.agent o).prepareInstall u site = (.ok ⟨.ready, newPath⟩, left)) :
    b.mode ≠ .prepareFailure ∧ newPath = some (b.shelfPath u) ∧
      (b.shelve u).runOn site.files = (.ok (), left.files) := by
  rw [prepareInstall_eq] at called
  by_cases willing : b.mode = .prepareFailure
  · rw [runOn_prepare_unwilling willing] at called
    cases called
  · rw [runOn_prepare_of_other willing other] at called
    cases ran : (b.shelve u).runOn site.files with
    | mk result next =>
      rw [ran] at called
      cases result with
      | error e => cases called
      | ok _ =>
        cases called
        exact ⟨willing, rfl, rfl⟩

/-- Calls by which updates are prepared lead from the one site to the other, whatever they answer.
Of each of these updates `which` is true. -/
inductive Prepares (b : Bench) (o : Outside) (which : Update → Prop) :
    Site Memory → Site Memory → Prop
  | none (site : Site Memory) : Prepares b o which site site
  | more {site middle : Site Memory} {u : Update} (earlier : Prepares b o which site middle)
      (among : which u) : Prepares b o which site ((b.agent o).prepareInstall u middle).2

/-- What each call keeps is kept by all of them. -/
theorem Prepares.maintains {o : Outside} {which : Update → Prop} {site later : Site Memory}
    (prepares : b.Prepares o which site later)
    (each : ∀ u, which u → Job.Maintains holds (b.prepare u)) (held : holds site.files) :
    holds later.files := by
  induction prepares with
  | none => exact held
  | more earlier among ih => exact each _ among _ ih

end OtaAgent.Bench
