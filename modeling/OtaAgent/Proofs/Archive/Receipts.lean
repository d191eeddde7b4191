import OtaAgent.Proofs.Archive.Atomicity

set_option autoImplicit false

namespace OtaAgent

open Files

/-- The receipts of one install, whose file may have been downloaded or not. An empty digest counts
the same as none. -/
structure Receipt.Alike (r r' : Receipt) : Prop where
  package : r.package = r'.package
  version : r.version = r'.version
  received : r.received.getD "" = r'.received.getD ""
  computed : r.computed = r'.computed
  file : r.file = r'.file

namespace Archive

variable {a : Archive} {package : String} {t next : Tree} {r r' : Receipt}

/-- A history that is not put in place is not read. -/
theorem get?_of_replace_error {h : History} {e : Error} (valid : canNameFile package = true)
    (ran : (a.replace package h).runOn t = (.error e, next)) :
    a.get? next package = a.get? t package := by
  unfold replace at ran
  rw [Job.runOn_bind, Job.runOn_attempt, Op.apply] at ran
  cases create : t.create (a.draftPath package) with
  | error fault =>
    rw [create] at ran
    cases ran
    rfl
  | ok created =>
    obtain ⟨written, append⟩ := Tree.exists_append_of_create create (Text.Utf8.encode h.text)
    simp only [create, settle, mapError_ok, Job.runOn_bind, Job.runOn_attempt, Op.apply,
      append] at ran
    cases rename : written.rename (a.draftPath package) (a.historyPath package) with
    | ok renamed =>
      rw [rename] at ran
      cases ran
    | error fault =>
      rw [rename] at ran
      obtain rfl : written = next := congrArg Prod.snd ran
      have dirs := (Tree.keepsDirs_create create).trans (Tree.keepsDirs_append append)
      have kept := (Tree.keeps_create create).trans
        ((Tree.keepsDirs_create create).cwd ▸ Tree.keeps_append append)
      obtain ⟨parent, name, drafted⟩ := Tree.place_of_create create
      have placed := placed_of_drafted valid drafted
      have apart : a.historyAt t package ≠ (a.draftPath package).lead t.cwd := by
        rw [lead_draft (isName_of_canNameFile valid)]
        exact fun same => not_scratch_historyAt (.inr same)
      rw [get?_eq_recorded? valid placed,
        get?_eq_recorded? valid (Tree.place_of_keepsDirs dirs placed),
        recorded?_of_keeps kept apart]

/-- Of two histories with the same current version both can be put in place or neither, and the
same version is the current one afterwards. -/
theorem current?_replace {h h' : History} (valid : canNameFile package = true) (sound : t.Sound)
    (sorted : h.backups.Sorted) (sorted' : h'.backups.Sorted) (consistent : h.isConsistent = true)
    (consistent' : h'.isConsistent = true) (same : h.current = h'.current) :
    a.current? ((a.replace package h).runOn t).2 package =
      a.current? ((a.replace package h').runOn t).2 package := by
  have placed {h : History} {u : Unit} {next : Tree} (sorted : h.backups.Sorted)
      (consistent : h.isConsistent = true) (ran : (a.replace package h).runOn t = (.ok u, next)) :
      a.current? next package = some h.current := by
    have said := (runOn_replace (isName_of_canNameFile valid) sorted consistent ran).1
    rw [current?, (inReach_of_replace valid sound ran).get?_eq valid, said]
    rfl
  have follows {h h' : History} {next : Tree}
      (ran : (a.replace package h).runOn t = (.ok (), next)) :
      ∃ last, (a.replace package h').runOn t = (.ok (), last) := by
    have started : Tree.Alike t.cwd (fun _ => False) t t := .refl rfl sound
    obtain ⟨_, last, ran', -⟩ := follows_replace package h h' t t () next started ran
    exact ⟨last, ran'⟩
  cases ran : (a.replace package h).runOn t with
  | mk result next => cases ran' : (a.replace package h').runOn t with
    | mk result' next' =>
      cases result with
      | ok _ => cases result' with
        | ok _ => rw [placed sorted consistent ran, placed sorted' consistent' ran', same]
        | error e =>
          obtain ⟨_, done⟩ := follows ran
          cases ran'.symm.trans done
      | error e => cases result' with
        | ok _ =>
          obtain ⟨_, done⟩ := follows ran'
          cases ran.symm.trans done
        | error e' =>
          rw [current?, current?, get?_of_replace_error valid ran, get?_of_replace_error valid ran']

theorem sorted_getD_get? (t : Tree) (package version : String) :
    ((a.get? t package).getD (.fresh version)).backups.Sorted := by
  cases found : a.get? t package with
  | none => exact List.Pairwise.nil
  | some h => exact sorted_of_get? found

/-- What follows on the same job makes the same version the current one if it does so wherever the
job is granted. -/
theorem current?_bind {α β : Type} {job : FileJob α} {f g : α → FileJob β}
    (rest : ∀ x next, job.runOn t = (.ok x, next) →
      a.current? ((f x).runOn next).2 package = a.current? ((g x).runOn next).2 package) :
    a.current? ((job >>= f).runOn t).2 package = a.current? ((job >>= g).runOn t).2 package := by
  rw [Job.runOn_bind, Job.runOn_bind]
  cases ran : job.runOn t with
  | mk result next => cases result with
    | error e => rfl
    | ok x => exact rest x next ran

theorem current?_conclude (valid : canNameFile r.package = true) (sound : t.Sound)
    (alike : r.Alike r') (backup : Path) :
    a.current? ((a.conclude r backup).runOn t).2 r.package =
      a.current? ((a.conclude r' backup).runOn t).2 r.package := by
  unfold conclude
  rw [← alike.package, ← alike.version]
  refine current?_bind fun _ locked lock => current?_bind fun base read begun => ?_
  rw [runOn_base, Prod.mk.injEq, Except.ok.injEq] at begun
  obtain ⟨rfl, rfl⟩ := begun
  have still := sound.of_keepsDirs ((builds_openLock r.package).keepsDirs sound lock)
  have sorted := sorted_getD_get? (a := a) locked r.package r.version
  have leaves (h : History) : ((do a.replace r.package h; return h : FileJob History).runOn
      locked).2 = ((a.replace r.package h).runOn locked).2 := by
    rw [Job.runOn_bind]
    cases (a.replace r.package h).runOn locked with
    | mk result next => cases result <;> rfl
  dsimp only
  rw [leaves, leaves]
  exact current?_replace valid still (sorted.insert _ _) (sorted.insert _ _)
    (isConsistent_install ..) (isConsistent_install ..) rfl

/-- Whichever of two receipts of one install is recorded, the same version is the current one. -/
theorem current?_record_alike (sound : t.Sound) (alike : r.Alike r') :
    a.current? ((a.record r).runOn t).2 r.package =
      a.current? ((a.record r').runOn t).2 r.package := by
  have backs : a.backUp r = a.backUp r' := by
    unfold backUp
    rw [alike.package, alike.version, alike.file]
  rw [record_eq, record_eq, ← backs, ← alike.package]
  refine current?_bind fun _ _ named => ?_
  obtain ⟨valid, rfl⟩ := canNameFile_of_runOn named
  refine current?_bind fun _ made make => current?_bind fun backup copied copy => ?_
  have first := sound.of_keepsDirs (builds_makeVersionDir.keepsDirs sound make)
  have second := first.of_keepsDirs ((builds_backUp r).keepsDirs first copy)
  exact current?_conclude valid second alike backup

end Archive
end OtaAgent
