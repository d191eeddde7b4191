import OtaAgent.Proofs.Archive.Record
import OtaAgent.Proofs.Files.Resolving

set_option autoImplicit false

namespace OtaAgent.Archive

open Files

variable {a : Archive} {package version : String} {t next : Tree}

/-- The file with the history of `package`, if there is one, can be read by its path. -/
structure InReach (a : Archive) (t : Tree) (package : String) : Prop where
  sound : t.Sound
  read : ∀ content, t.content? (a.historyAt t package) = some content →
    t.read (a.historyPath package) = .ok content

theorem runOn_load_of_get? {h : History} (found : a.get? t package = some h) :
    (a.load package).runOn t = (.ok (some h), t) := by
  have same := looks_load (a := a) package t
  unfold get? at found
  split at found
  · rename_i history ran
    rw [found] at ran
    exact Prod.ext ran same
  · cases found

theorem exists_placed_of_read {content : Bytes} (valid : canNameFile package = true)
    (held : t.read (a.historyPath package) = .ok content) :
    ∃ parent, t.place (a.historyPath package) = .ok (.entry parent package false) := by
  obtain ⟨⟨parent, name, placed⟩, -⟩ := Tree.placed_of_read held
  have same := (Tree.place_entry placed).trans (lead_history (isName_of_canNameFile valid))
  obtain ⟨rfl, names⟩ := List.append_inj' same rfl
  obtain rfl : name = package := by simpa using names
  exact ⟨_, placed⟩

theorem read_of_load {h : History} (valid : canNameFile package = true)
    (ran : (a.load package).runOn t = (.ok (some h), next)) :
    ∃ content, t.read (a.historyPath package) = .ok content := by
  unfold load at ran
  rw [Job.runOn_bind, runOn_checkName valid] at ran
  simp only [Job.runOn_bind, Job.runOn_ask, Op.apply] at ran
  split at ran
  · cases ran
  · cases ran
  · rename_i content held
    exact ⟨content, held⟩

theorem canNameFile_of_get? {h : History} (found : a.get? t package = some h) :
    canNameFile package = true := by
  obtain ⟨_, _, named, -⟩ := Job.runOn_bind_ok (runOn_load_of_get? found)
  exact (canNameFile_of_runOn named).1

theorem sorted_of_get? {h : History} (found : a.get? t package = some h) : h.backups.Sorted := by
  have ran := congrArg Prod.fst (runOn_load_of_get? found)
  exact sorted_of_recorded? (recorded?_of_load (canNameFile_of_get? found) ran)

/-- A history that is read is read as long as its file holds the same. -/
theorem get?_of_read {h : History} (found : a.get? t package = some h)
    (kept : ∀ content, t.read (a.historyPath package) = .ok content →
      next.read (a.historyPath package) = .ok content) : a.get? next package = some h := by
  have valid := canNameFile_of_get? found
  have isName := isName_of_canNameFile valid
  obtain ⟨content, held⟩ := read_of_load valid (runOn_load_of_get? found)
  obtain ⟨_, before⟩ := exists_placed_of_read valid held
  obtain ⟨_, after⟩ := exists_placed_of_read valid (kept content held)
  have first := (Tree.placed_of_read held).2
  have second := (Tree.placed_of_read (kept content held)).2
  rw [lead_history isName] at first second
  rw [get?_eq_recorded? valid before, recorded?, first] at found
  rw [get?_eq_recorded? valid after, recorded?, second, found]

theorem InReach.get?_eq (reach : a.InReach t package) (valid : canNameFile package = true) :
    a.get? t package = a.recorded? t package := by
  cases there : t.content? (a.historyAt t package) with
  | some content =>
    obtain ⟨parent, placed⟩ := exists_placed_of_read valid (reach.read content there)
    exact get?_eq_recorded? valid placed
  | none =>
    have unsaid : a.recorded? t package = none := by simp [recorded?, there]
    cases found : a.get? t package with
    | none => exact unsaid.symm
    | some h =>
      have said := recorded?_of_load valid (congrArg Prod.fst (runOn_load_of_get? found))
      rw [unsaid] at said
      cases said

theorem inReach_of_placed {parent : Location} (valid : canNameFile package = true)
    (sound : t.Sound)
    (placed : t.place (a.historyPath package) = .ok (.entry parent package false)) :
    a.InReach t package where
  sound
  read content there := by
    rw [← lead_history (isName_of_canNameFile valid), ← Tree.place_entry placed] at there
    exact Tree.read_of_placed placed there

/-- A history that is written in its file is read. -/
theorem get?_of_text {h : History} {parent : Location} (valid : canNameFile package = true)
    (placed : t.place (a.historyPath package) = .ok (.entry parent package false))
    (sorted : h.backups.Sorted) (consistent : h.isConsistent = true)
    (there : t.content? (a.historyAt t package) = some (Text.Utf8.encode h.text)) :
    a.get? t package = some h :=
  (get?_eq_recorded? valid placed).trans (recorded?_of_text sorted consistent there)

/-- A history that is not touched stays in reach. -/
theorem InReach.of_content (reach : a.InReach t package) (valid : canNameFile package = true)
    (keeps : t.KeepsDirs next)
    (same : next.content? (a.historyAt t package) = t.content? (a.historyAt t package)) :
    a.InReach next package where
  sound := reach.sound.of_keepsDirs keeps
  read content there := by
    rw [historyAt_of_cwd keeps.cwd, same] at there
    refine Tree.read_of_keepsDirs keeps (reach.read content there) ?_
    rw [lead_history (isName_of_canNameFile valid), same, there]

section Jobs

theorem replacing_builds (package : String) :
    a.Replacing (fun _ => Job.Builds) (fun _ => Job.Builds) package where
  lock _ := Job.builds_attempt trivial
  create _ := Job.builds_attempt trivial
  write _ _ := Job.builds_attempt trivial
  rename _ := Job.builds_attempt trivial

theorem backingUp_builds (r : Receipt) :
    a.BackingUp (fun _ => Job.Builds) (fun _ => Job.Builds) r where
  makeDirs _ _ _ := Job.builds_attempt trivial
  copy _ := Job.builds_attempt trivial

theorem builds_makeVersionDir : Job.Builds a.makeVersionDir :=
  Job.rules_builds.makeVersionDir fun _ => Job.builds_attempt trivial

theorem builds_backUp (r : Receipt) : Job.Builds (a.backUp r) :=
  Job.rules_builds.backUp (backingUp_builds r)

theorem builds_openLock (package : String) : Job.Builds (a.openLock package) :=
  Job.rules_builds.openLock (replacing_builds package)

theorem builds_replace (package : String) (h : History) : Job.Builds (a.replace package h) :=
  Job.rules_builds.replace (replacing_builds package) h

theorem builds_record (r : Receipt) : Job.Builds (a.record r) :=
  Job.rules_builds.record (fun _ _ => Job.builds_attempt trivial) (fun _ => backingUp_builds r)
    fun _ => replacing_builds r.package

theorem builds_reinstate (package version : String) : Job.Builds (a.reinstate package version) :=
  Job.rules_builds.reinstate (fun _ _ => Job.builds_attempt trivial)
    fun _ => replacing_builds package

/-- A history that is put in place is in reach. -/
theorem inReach_of_replace {h : History} {u : Unit} (valid : canNameFile package = true)
    (sound : t.Sound) (ran : (a.replace package h).runOn t = (.ok u, next)) :
    a.InReach next package := by
  obtain ⟨parent, name, drafted⟩ := drafted_of_replace ran
  have keeps := (builds_replace package h).keepsDirs sound ran
  exact inReach_of_placed valid (sound.of_keepsDirs keeps)
    (Tree.place_of_keepsDirs keeps (placed_of_drafted valid drafted))

theorem inReach_of_record {r : Receipt} {h : History} (sound : t.Sound)
    (ran : (a.record r).runOn t = (.ok h, next)) : a.InReach next r.package := by
  obtain ⟨valid, made, copied, locked, make, backUp, lock, -, replace⟩ := record_steps ran
  have first := builds_makeVersionDir.keepsDirs sound make
  have second := (builds_backUp r).keepsDirs (sound.of_keepsDirs first) backUp
  have third := (builds_openLock _).keepsDirs (sound.of_keepsDirs (first.trans second)) lock
  exact inReach_of_replace valid (sound.of_keepsDirs ((first.trans second).trans third)) replace

end Jobs

section Effects

theorem InReach.get?_of_content (reach : a.InReach t package) (valid : canNameFile package = true)
    (keeps : t.KeepsDirs next)
    (same : next.content? (a.historyAt t package) = t.content? (a.historyAt t package)) :
    a.get? next package = a.get? t package := by
  rw [reach.get?_eq valid, (reach.of_content valid keeps same).get?_eq valid, recorded?, recorded?,
    historyAt_of_cwd keeps.cwd, same]

/-- An install that is recorded is added to the history that was read before. -/
theorem get?_of_record {r : Receipt} {h : History} (valid : canNameFile r.package = true)
    (reach : a.InReach t r.package)
    (outside : (a.backupPath r.package r.version r.file).lead t.cwd ≠ a.historyAt t r.package)
    (ran : (a.record r).runOn t = (.ok h, next)) :
    h = ((a.get? t r.package).getD (.fresh r.version)).install r.version (a.kept r) ∧
      a.get? next r.package = some h ∧ a.InReach next r.package := by
  obtain ⟨made, said, -⟩ := runOn_record outside ran
  have within := inReach_of_record reach.sound ran
  rw [reach.get?_eq valid, within.get?_eq valid]
  exact ⟨made, said, within⟩

theorem get?_of_record_error {r : Receipt} {e : Error} (valid : canNameFile r.package = true)
    (reach : a.InReach t r.package)
    (outside : (a.backupPath r.package r.version r.file).lead t.cwd ≠ a.historyAt t r.package)
    (ran : (a.record r).runOn t = (.error e, next)) :
    a.get? next r.package = a.get? t r.package ∧ a.InReach next r.package := by
  have keeps := (builds_record r).keepsDirs reach.sound ran
  have same := (failsWithin_record r t e next rfl ran).content _ (not_beside_historyAt outside)
  exact ⟨reach.get?_of_content valid keeps same, reach.of_content valid keeps same⟩

/-- A version that is reinstated becomes the current one of the history that was read before. -/
theorem get?_of_reinstate {h : History} (valid : canNameFile package = true)
    (reach : a.InReach t package) (ran : (a.reinstate package version).runOn t = (.ok h, next)) :
    (∃ before, a.get? t package = some before ∧ before.backups.contains version = true ∧
      h = before.goBackTo version) ∧
      a.get? next package = some h ∧ a.InReach next package := by
  obtain ⟨⟨before, held, contained, rfl⟩, said, -⟩ := runOn_reinstate ran
  rw [← reach.get?_eq valid] at held
  obtain ⟨content, read⟩ := read_of_load valid (runOn_load_of_get? held)
  obtain ⟨parent, placed⟩ := exists_placed_of_read valid read
  have keeps := (builds_reinstate package version).keepsDirs reach.sound ran
  have within := inReach_of_placed valid (reach.sound.of_keepsDirs keeps)
    (Tree.place_of_keepsDirs keeps placed)
  rw [within.get?_eq valid]
  exact ⟨⟨before, held, contained, rfl⟩, said, within⟩

theorem get?_of_reinstate_error {e : Error} (valid : canNameFile package = true)
    (reach : a.InReach t package) (ran : (a.reinstate package version).runOn t = (.error e, next)) :
    a.get? next package = a.get? t package ∧ a.InReach next package := by
  have keeps := (builds_reinstate package version).keepsDirs reach.sound ran
  have same := (failsWithin_reinstate package version t e next rfl ran).content _
    not_scratch_historyAt
  exact ⟨reach.get?_of_content valid keeps same, reach.of_content valid keeps same⟩

end Effects

section Granting

variable {drafted : Tree}

def CanWrite (a : Archive) (t : Tree) (package : String) : Prop :=
  ∃ made locked drafted, t.makeDirs a.versionDir = (.ok (), made) ∧
    made.touch (a.lockPath package) = .ok locked ∧
    locked.create (a.draftPath package) = .ok drafted

/-- A history is put in the place of another one if a draft of it can be made. -/
theorem exists_runOn_replace {content : Bytes} (valid : canNameFile package = true)
    (there : t.content? (a.historyAt t package) = some content)
    (created : t.create (a.draftPath package) = .ok drafted) (h : History) :
    ∃ next, (a.replace package h).runOn t = (.ok (), next) := by
  obtain ⟨written, append⟩ := Tree.exists_append_of_create created (Text.Utf8.encode h.text)
  have isName := isName_of_canNameFile valid
  obtain ⟨⟨loc, _⟩, aimed, -⟩ := exists_ok_of_map created
  obtain ⟨parent, name, placed, isDir, -⟩ := Tree.placed_of_target aimed
  have keeps := (Tree.keepsDirs_create created).trans (Tree.keepsDirs_append append)
  have kept := (Tree.keeps_create created).trans
    ((Tree.keepsDirs_create created).cwd ▸ Tree.keeps_append append)
  have source : ∃ held, written.read (a.draftPath package) = .ok held := by
    obtain ⟨held, -, after⟩ := Tree.content?_of_append append
    rw [(Tree.keepsDirs_create created).cwd, ← Tree.place_entry placed] at after
    exact ⟨_, Tree.read_of_placed (Tree.place_of_keepsDirs keeps placed) after⟩
  have target := placed_of_drafted valid placed
  have free : written.node? (parent ++ [package]) ≠ some .dir := by
    intro isDir
    have apart : a.historyAt t package ≠ (a.draftPath package).lead t.cwd := by
      rw [lead_draft isName]
      exact fun same => not_scratch_historyAt (.inr same)
    rw [← kept.content _ apart, Tree.content?, ← lead_history isName, ← Tree.place_entry target,
      isDir] at there
    cases there
  obtain ⟨held, read⟩ := source
  obtain ⟨next, rename⟩ := Tree.exists_rename read (Tree.place_of_keepsDirs keeps target)
    (keeps.dirs _ isDir) free
  refine ⟨next, ?_⟩
  simp [replace, Job.runOn_bind, Op.apply, created, append, rename, settle, mapError_ok]

theorem runOn_openLock (touched : t.touch (a.lockPath package) = .ok next) :
    (a.openLock package).runOn t = (.ok (), next) := by
  simp [openLock, Job.runOn_bind, Op.apply, settle, touched, mapError_ok]

/-- Where the lock and the draft can be written, every version of the history is reinstated. -/
theorem exists_runOn_reinstate {h : History} (valid : canNameFile package = true)
    (reach : a.InReach t package) (can : a.CanWrite t package)
    (held : a.get? t package = some h) (contained : h.backups.contains version = true) :
    ∃ back next, (a.reinstate package version).runOn t = (.ok back, next) := by
  obtain ⟨made, locked, drafted, make, touch, create⟩ := can
  have isName := isName_of_canNameFile valid
  have first : a.makeVersionDir.runOn t = (.ok (), made) := by
    simp [makeVersionDir, Job.runOn_bind, Op.apply, silent, make, Except.map, mapError_ok]
  have second : (a.openLock package).runOn made = (.ok (), locked) := runOn_openLock touch
  have dirs : t.KeepsDirs locked := by
    have begun := builds_makeVersionDir.keepsDirs reach.sound first
    exact begun.trans ((builds_openLock package).keepsDirs (reach.sound.of_keepsDirs begun) second)
  have kept : t.Keeps locked (a.Scratch t package) := by
    have begun : t.Keeps made fun _ => False := within_makeVersionDir.keeps rfl first
    exact (begun.imp fun _ => False.elim).trans ((within_openLock isName).keeps begun.cwd second)
  have same := kept.content _ not_scratch_historyAt
  have still : a.get? locked package = some h :=
    (reach.get?_of_content valid dirs same).trans held
  unfold reinstate
  simp only [Job.runOn_bind, runOn_checkName valid, first, second, runOn_load_of_get? still,
    contained]
  by_cases current : h.current = version
  · simp [current]
  · obtain ⟨content, read⟩ := read_of_load valid (runOn_load_of_get? still)
    have there := (Tree.placed_of_read read).2
    rw [lead_history isName] at there
    obtain ⟨next, replaced⟩ := exists_runOn_replace valid there create (h.goBackTo version)
    simp [current, Job.runOn_bind, replaced]

end Granting

end OtaAgent.Archive
