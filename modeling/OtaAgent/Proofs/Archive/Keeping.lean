import OtaAgent.Proofs.Archive.Checksums
import OtaAgent.Proofs.Files.Opened

set_option autoImplicit false

namespace OtaAgent

open Files

namespace Archive

/-- Names of packages, none of which is that of a lock or a draft of another. -/
structure Naming (names : String → Prop) : Prop where
  isName : ∀ package, names package → Path.IsName package
  lock : ∀ package other, names package → names other → "." ++ package ++ ".lock" ≠ other
  draft : ∀ package other, names package → names other → package ++ ".tmp" ≠ other

/-- The directories of the archive are there, neither lies in the other, and no directory lies
where the histories are. -/
structure Founded (a : Archive) (t : Tree) (records backups : Location) : Prop where
  sound : t.Sound
  versionDir : t.Opened a.versionDir records
  backupDir : t.Opened a.backupDir backups
  outside : ¬ backups <+: records
  flat : ∀ n, t.node? (records ++ [n]) ≠ some .dir

/-- The file of a version lies where the backups of its package are and has the digest that was
recorded. -/
structure Stored (a : Archive) (t : Tree) (package version : String) (b : Backup) : Prop where
  isName : Path.IsName version
  place : ∃ name, Path.IsName name ∧ b.file = ((a.backupDir.join package).join version).join name
  intact : ∃ content, t.read b.file = .ok content ∧
    Digest.parse? b.digest = some (.ofContent content)

structure Writable (a : Archive) (t : Tree) (package : String) : Prop where
  lock : ∃ parent name, t.place (a.lockPath package) = .ok (.entry parent name false)
  draft : ∃ parent name, t.place (a.draftPath package) = .ok (.entry parent name false)

/-- Every package has its history in order, and every version that is kept is stored. -/
structure Tidy (a : Archive) (names : String → Prop) (records backups : Location) (t : Tree) : Prop
    extends a.Founded t records backups where
  reach : ∀ package, names package → canNameFile package = true → a.InReach t package
  writable : ∀ package, names package → (a.get? t package).isSome → a.Writable t package
  stored : ∀ package, names package → ∀ h, a.get? t package = some h →
    ∀ version b, h.backups.get? version = some b → a.Stored t package version b

variable {a : Archive} {t next : Tree} {package version : String} {records backups : Location}
  {names : String → Prop} {r : Receipt} {b : Backup} {content : Bytes}

theorem Stored.of_read (stored : a.Stored t package version b)
    (kept : ∀ content, t.read b.file = .ok content → next.read b.file = .ok content) :
    a.Stored next package version b where
  isName := stored.isName
  place := stored.place
  intact := by
    obtain ⟨content, held, parsed⟩ := stored.intact
    exact ⟨content, kept content held, parsed⟩

theorem Writable.of_keepsDirs (writable : a.Writable t package) (keeps : t.KeepsDirs next) :
    a.Writable next package where
  lock := by
    obtain ⟨parent, name, placed⟩ := writable.lock
    exact ⟨parent, name, Tree.place_of_keepsDirs keeps placed⟩
  draft := by
    obtain ⟨parent, name, placed⟩ := writable.draft
    exact ⟨parent, name, Tree.place_of_keepsDirs keeps placed⟩

section Places

theorem prefix_of_concat {l m : Location} {x y : String} (inside : l ++ [x] <+: m ++ [y]) :
    l <+: m := by
  refine List.prefix_of_prefix_length_le ((List.prefix_append l [x]).trans inside)
    (List.prefix_append m [y]) ?_
  have short := inside.length_le
  simpa using short

theorem Founded.at_eq (founded : a.Founded t records backups) : a.at_ t = records :=
  founded.versionDir.lead_eq

theorem Founded.ne_records (founded : a.Founded t records backups) {x n : String}
    {more : Location} : backups ++ x :: more ≠ records ++ [n] := by
  intro same
  apply founded.outside
  have inside : backups ++ [x] <+: records ++ [n] := by
    rw [← same]
    exact ⟨more, by simp⟩
  exact prefix_of_concat inside

/-- No backup belongs to a history. -/
theorem Founded.not_belongs (founded : a.Founded t records backups) {x : String}
    {more : Location} : ¬ a.Belongs t package (backups ++ x :: more) := by
  rintro (history | lock | draft)
  · rw [historyAt, founded.at_eq] at history
    exact founded.ne_records history
  · rw [founded.at_eq] at lock
    exact founded.ne_records lock
  · rw [founded.at_eq] at draft
    exact founded.ne_records draft

theorem Naming.not_belongs {other : String} (naming : Naming names) (named : names package)
    (namedOther : names other) (different : package ≠ other) :
    ¬ a.Belongs t package (a.historyAt t other) := by
  have apart {n m : String} (differ : n ≠ m) : a.at_ t ++ [m] ≠ a.at_ t ++ [n] := by
    simpa using differ.symm
  rintro (history | lock | draft)
  · exact apart different history
  · exact apart (naming.lock _ _ named namedOther) lock
  · exact apart (naming.draft _ _ named namedOther) draft

theorem Founded.lead_backup (founded : a.Founded t records backups) {name : String}
    (isName : Path.IsName package) (isVersion : Path.IsName version) (isFile : Path.IsName name) :
    (((a.backupDir.join package).join version).join name).lead t.cwd =
      backups ++ [package, version, name] := by
  have below := ((Path.below_join a.backupDir isName).join isVersion).join isFile
  rw [below.lead, founded.backupDir.lead_eq]
  rfl

/-- A version stays stored as long as no file changes where its copies are. -/
theorem Stored.of_keeps {places : Location → Prop} (stored : a.Stored t package version b)
    (founded : a.Founded t records backups) (isName : Path.IsName package)
    (keepsDirs : t.KeepsDirs next) (keeps : t.Keeps next places)
    (outside : ∀ name, ¬ places (backups ++ [package, version, name])) :
    a.Stored next package version b := by
  refine stored.of_read fun content held => Tree.read_of_keepsDirs keepsDirs held ?_
  have there := (Tree.placed_of_read held).2
  obtain ⟨name, isFile, file⟩ := stored.place
  rw [file, founded.lead_backup isName stored.isName isFile] at there ⊢
  rw [keeps.content _ (outside name), there]

end Places

section Growth

theorem Founded.of_grows (founded : a.Founded t records backups)
    (grows : t.Grows next (backups ++ [package] <+: ·)) : a.Founded next records backups where
  sound := founded.sound.of_keepsDirs grows.keepsDirs
  versionDir := founded.versionDir.of_keepsDirs grows.keepsDirs
  backupDir := founded.backupDir.of_keepsDirs grows.keepsDirs
  outside := founded.outside
  flat n isDir := by
    rcases grows.made _ isDir with before | inside
    · exact founded.flat n before
    · exact founded.outside (prefix_of_concat inside)

theorem Founded.makeVersionDir (founded : a.Founded t records backups) :
    a.makeVersionDir.runOn t = (.ok (), t) := by
  have stays := Tree.makeDirs_of_opened founded.versionDir
  simp [Archive.makeVersionDir, Job.runOn_bind, Op.apply, silent, stays, Except.map, mapError_ok]

theorem Founded.grows_makeVersionDir (founded : a.Founded t records backups)
    {places : Location → Prop} :
    Job.Attempts (fun _ (job : FileJob _) => Job.Maintains (t.Grows · places) job)
      (.makeDirs a.versionDir) := by
  intro fault next grown
  have still := founded.versionDir.of_keepsDirs grown.keepsDirs
  simpa [Job.runOn_attempt, Op.apply, silent, Tree.makeDirs_of_opened still]

theorem Founded.backingUp_grows (founded : a.Founded t records backups)
    (isName : Path.IsName r.package) (isVersion : Path.IsName r.version) :
    a.BackingUp (fun _ => Job.Maintains (t.Grows · (backups ++ [r.package] <+: ·)))
      (fun _ => Job.Maintains (t.Grows · (backups ++ [r.package] <+: ·))) r where
  makeDirs dir up := by
    rw [backupPath, Path.parent?_join _ isVersion (isName_backup isName)] at up
    cases up
    intro fault next grown
    rw [Job.runOn_attempt]
    have opened := founded.backupDir.of_keepsDirs grown.keepsDirs
    refine grown.trans ((opened.grows_makeDirs isName isVersion).imp fun loc made => ?_)
    rcases made with rfl | rfl
    · exact List.prefix_rfl
    · exact ⟨[r.version], by simp⟩
  copy _ := Job.maintains_grows trivial founded.sound

theorem replacing_grows {places : Location → Prop} (sound : t.Sound) :
    a.Replacing (fun _ => Job.Maintains (t.Grows · places))
      (fun _ => Job.Maintains (t.Grows · places)) package where
  lock _ := Job.maintains_grows trivial sound
  create _ := Job.maintains_grows trivial sound
  write _ _ := Job.maintains_grows trivial sound
  rename _ := Job.maintains_grows trivial sound

theorem Founded.grows_backUp (founded : a.Founded t records backups)
    (isName : Path.IsName r.package) (isVersion : Path.IsName r.version) :
    Job.Maintains (t.Grows · (backups ++ [r.package] <+: ·)) (a.backUp r) :=
  Job.rules_maintains.backUp (founded.backingUp_grows isName isVersion)

/-- Directories are made for the backups of the package alone when an install is recorded. -/
theorem Founded.grows_record (founded : a.Founded t records backups)
    (isName : Path.IsName r.package) (isVersion : Path.IsName r.version) :
    t.Grows ((a.record r).runOn t).2 (backups ++ [r.package] <+: ·) := by
  have maintains : Job.Maintains (t.Grows · (backups ++ [r.package] <+: ·)) (a.record r) :=
    Job.rules_maintains.record (fun _ => founded.grows_makeVersionDir)
      (fun _ => founded.backingUp_grows isName isVersion) fun _ => replacing_grows founded.sound
  exact maintains t (.refl t _)

theorem Founded.grows_reinstate (founded : a.Founded t records backups)
    {places : Location → Prop} (package version : String) :
    t.Grows ((a.reinstate package version).runOn t).2 places := by
  have maintains : Job.Maintains (t.Grows · places) (a.reinstate package version) :=
    Job.rules_maintains.reinstate (fun _ => founded.grows_makeVersionDir)
      fun _ => replacing_grows founded.sound
  exact maintains t (.refl t _)

end Growth

section Frames

/-- Where files may change when an install is recorded. -/
theorem Founded.keeps_record (founded : a.Founded t records backups)
    (isName : Path.IsName r.package) (isVersion : Path.IsName r.version) :
    t.Keeps ((a.record r).runOn t).2
      (fun loc => loc = (a.backupPath r.package r.version r.file).lead t.cwd ∨
        a.Belongs t r.package loc) := by
  have outside : (a.backupPath r.package r.version r.file).lead t.cwd ≠
      a.historyAt t r.package := by
    rw [backupPath, founded.lead_backup isName isVersion (isName_backup isName)]
    exact fun same => founded.not_belongs (.inl same)
  cases ran : (a.record r).runOn t with
  | mk result next => cases result with
    | ok h =>
      refine (runOn_record outside ran).2.2.imp fun loc there => ?_
      rcases there with history | backup | scratch
      · exact .inr (.inl history)
      · exact .inl backup
      · exact .inr (.inr scratch)
    | error e =>
      exact (failsWithin_record r t e next rfl ran).imp fun loc there => there.imp_right .inr

theorem keeps_reinstate (package version : String) :
    t.Keeps ((a.reinstate package version).runOn t).2 (a.Belongs t package) := by
  cases ran : (a.reinstate package version).runOn t with
  | mk result next => cases result with
    | ok h => exact (runOn_reinstate ran).2.2
    | error e => exact (failsWithin_reinstate package version t e next rfl ran).imp fun _ => .inr

theorem failsWithin_backUp (r : Receipt) {cwd : Location} :
    Job.FailsWithin cwd (fun _ => False) (a.backUp r) :=
  Job.rules_failsWithin.backUp {
    makeDirs := fun _ _ => attempts_within_makeDirs
    copy := fun _ => Job.failsWithin_attempt fun _ => ⟨_, rfl⟩ }

end Frames

section Recording

variable {copied : Tree}

theorem Founded.target_of_placed (founded : a.Founded t records backups) {p : Path}
    {parent : Location} {name n : String} (placed : t.place p = .ok (.entry parent name false))
    (lead : p.lead t.cwd = records ++ [n]) :
    ∃ held, t.target p = .ok (records ++ [n], held) := by
  obtain ⟨rfl, names⟩ := List.append_inj' ((Tree.place_entry placed).trans lead) rfl
  obtain rfl : name = n := by simpa using names
  have free := founded.flat name
  have isDir := founded.versionDir.isDir
  cases node : t.node? (parent ++ [name]) with
  | none => exact ⟨none, by simp [Tree.target, placed, isDir, node]⟩
  | some held => cases held with
    | dir => exact absurd node free
    | file content => exact ⟨some content, Tree.target_of_placed placed isDir node⟩

theorem content_of_get? {h : History} (found : a.get? t package = some h) :
    ∃ content, t.content? (a.historyAt t package) = some content := by
  have valid := canNameFile_of_get? found
  obtain ⟨content, held⟩ := read_of_load valid (runOn_load_of_get? found)
  have there := (Tree.placed_of_read held).2
  rw [lead_history (isName_of_canNameFile valid)] at there
  exact ⟨content, there⟩

/-- Once the file is backed up, an install is recorded if its package has a history. -/
theorem Founded.exists_runOn_record {backup : Path} (founded : a.Founded t records backups)
    (isVersion : Path.IsName r.version) (writable : a.Writable t r.package)
    (found : (a.get? t r.package).isSome)
    (backUp : (a.backUp r).runOn t = (.ok backup, copied)) :
    ∃ h next, (a.record r).runOn t = (.ok h, next) := by
  obtain ⟨before, found⟩ := Option.isSome_iff_exists.mp found
  have valid := canNameFile_of_get? found
  have isName := isName_of_canNameFile valid
  obtain ⟨content, there⟩ := content_of_get? found
  -- The directories are as they should be when the lock is opened, and when the draft is made.
  have grown : t.Grows copied (backups ++ [r.package] <+: ·) := by
    have grown := founded.grows_backUp isName isVersion t (.refl t _)
    rwa [backUp] at grown
  have founded' := founded.of_grows grown
  obtain ⟨_, _, placed⟩ := (writable.of_keepsDirs grown.keepsDirs).lock
  obtain ⟨held, aimed⟩ := founded'.target_of_placed placed
    (by rw [lead_lock isName, founded'.at_eq])
  obtain ⟨locked, touched⟩ : ∃ locked, copied.touch (a.lockPath r.package) = .ok locked :=
    ⟨_, congrArg (Except.map _) aimed⟩
  have opened := runOn_openLock touched
  have grown' := grown.trans (Tree.grows_touch touched)
  have founded'' := founded.of_grows grown'
  obtain ⟨_, _, placed⟩ := (writable.of_keepsDirs grown'.keepsDirs).draft
  obtain ⟨held, aimed⟩ := founded''.target_of_placed placed
    (by rw [lead_draft isName, founded''.at_eq])
  obtain ⟨drafted, created⟩ : ∃ drafted, locked.create (a.draftPath r.package) = .ok drafted :=
    ⟨_, congrArg (Except.map _) aimed⟩
  -- The history is still there.
  have first := (within_backUp r).keeps rfl backUp
  have second := (within_openLock (a := a) isName).keeps rfl opened
  have kept : locked.content? (a.historyAt locked r.package) = some content := by
    rw [historyAt_of_cwd second.cwd, second.content _ not_scratch_historyAt,
      historyAt_of_cwd first.cwd, first.content, there]
    rw [backupPath, founded.lead_backup isName isVersion (isName_backup isName)]
    exact fun same => founded.not_belongs (.inl same.symm)
  obtain ⟨next, replaced⟩ := exists_runOn_replace valid kept created
    (((a.get? locked r.package).getD (.fresh r.version)).install r.version
      ⟨r.downloaded, (r.digest?.map (·.text)).getD "", backup⟩)
  unfold record
  simp only [Job.runOn_bind, runOn_checkName valid, founded.makeVersionDir, backUp, opened,
    runOn_base, replaced, Job.runOn_pure]
  exact ⟨_, _, rfl⟩

/-- An install that is refused leaves all files alone if its package has a history. -/
theorem Founded.keeps_of_record_error {e : Error} (founded : a.Founded t records backups)
    (isVersion : Path.IsName r.version) (writable : a.Writable t r.package)
    (found : (a.get? t r.package).isSome)
    (ran : (a.record r).runOn t = (.error e, next)) : t.Keeps next fun _ => False := by
  cases backUp : (a.backUp r).runOn t with
  | mk result copied => cases result with
    | ok backup =>
      obtain ⟨h, last, granted⟩ :=
        founded.exists_runOn_record isVersion writable found backUp
      rw [granted] at ran
      cases ran
    | error cause =>
      obtain ⟨before, held⟩ := Option.isSome_iff_exists.mp found
      have untouched := failsWithin_backUp r t cause copied rfl backUp
      unfold record at ran
      simp only [Job.runOn_bind, runOn_checkName (canNameFile_of_get? held),
        founded.makeVersionDir, backUp] at ran
      cases ran
      exact untouched

end Recording

section Requests

/-- An archive without histories is tidy. -/
theorem Founded.tidy (founded : a.Founded t records backups)
    (absent : ∀ n, t.node? (records ++ [n]) = none) : a.Tidy names records backups t := by
  have without (package : String) : t.content? (a.historyAt t package) = none := by
    rw [historyAt, founded.at_eq, Tree.content?, absent, Option.bind_none]
  have reach (package : String) : a.InReach t package := by
    refine ⟨founded.sound, fun content there => ?_⟩
    rw [without] at there
    cases there
  have unsaid (package : String) : a.get? t package = none := by
    cases found : a.get? t package with
    | none => rfl
    | some h =>
      rw [(reach package).get?_eq (canNameFile_of_get? found), recorded?, without] at found
      cases found
  refine ⟨founded, fun package _ _ => reach package, fun package _ found => ?_,
    fun package _ h found => ?_⟩
  · rw [unsaid] at found
    cases found
  · rw [unsaid] at found
    cases found

/-- A change that concerns one package leaves the archive tidy if it leaves that package so. -/
theorem Tidy.of_change (tidy : a.Tidy names records backups t) (naming : Naming names)
    (named : names package) (grows : t.Grows next (backups ++ [package] <+: ·))
    (keeps : t.Keeps next fun loc => backups ++ [package] <+: loc ∨ a.Belongs t package loc)
    (reach : canNameFile package = true → a.InReach next package)
    (writable : (a.get? next package).isSome → a.Writable next package)
    (stored : ∀ h, a.get? next package = some h →
      ∀ version b, h.backups.get? version = some b → a.Stored next package version b) :
    a.Tidy names records backups next := by
  have founded := tidy.toFounded
  -- What belongs to another package is where nothing has changed.
  have content {other : String} (namedOther : names other) (different : package ≠ other) :
      next.content? (a.historyAt t other) = t.content? (a.historyAt t other) := by
    apply keeps.content
    rintro (inside | there)
    · rw [historyAt, founded.at_eq] at inside
      exact founded.outside (prefix_of_concat inside)
    · exact naming.not_belongs named namedOther different there
  have same {other : String} (namedOther : names other) (different : package ≠ other)
      (valid : canNameFile other = true) : a.get? next other = a.get? t other :=
    (tidy.reach other namedOther valid).get?_of_content valid grows.keepsDirs
      (content namedOther different)
  refine ⟨founded.of_grows grows, fun other namedOther valid => ?_,
    fun other namedOther found => ?_, fun other namedOther h found version b kept => ?_⟩
  · by_cases this : package = other
    · exact this ▸ reach (this ▸ valid)
    · exact (tidy.reach other namedOther valid).of_content valid grows.keepsDirs
        (content namedOther this)
  · by_cases this : package = other
    · exact this ▸ writable (this ▸ found)
    · obtain ⟨h, held⟩ := Option.isSome_iff_exists.mp found
      rw [same namedOther this (canNameFile_of_get? held)] at found
      exact (tidy.writable other namedOther found).of_keepsDirs grows.keepsDirs
  · by_cases this : package = other
    · subst this
      exact stored h found version b kept
    · rw [same namedOther this (canNameFile_of_get? found)] at found
      refine (tidy.stored other namedOther h found version b kept).of_keeps founded
        (naming.isName other namedOther) grows.keepsDirs keeps fun name => ?_
      rintro (inside | there)
      · rw [List.prefix_append_right_inj, List.cons_prefix_cons] at inside
        exact this inside.1
      · exact founded.not_belongs there

/-- A file that does not lie among the backups can be kept there. -/
theorem Founded.canKeep (founded : a.Founded t records backups) (isName : Path.IsName r.package)
    (isVersion : Path.IsName r.version) (away : ¬ backups <+: r.file.lead t.cwd)
    (held : t.read r.file = .ok content) : a.CanKeep t r := by
  have isFile : Path.IsName (r.file.fileName?.getD r.package) := isName_backup isName
  have lead := founded.lead_backup isName isVersion isFile
  refine ⟨⟨content, held⟩, .inr fun same => away ?_, fun there => ?_⟩
  · rw [← same, backupPath, lead]
    exact List.prefix_append _ _
  · rw [backupPath, lead] at there
    exact founded.not_belongs there

theorem Founded.keepsChange_record (founded : a.Founded t records backups)
    (isName : Path.IsName r.package) (isVersion : Path.IsName r.version) :
    t.Keeps ((a.record r).runOn t).2 fun loc =>
      backups ++ [r.package] <+: loc ∨ a.Belongs t r.package loc := by
  refine (founded.keeps_record isName isVersion).imp fun loc there => there.imp_left fun same => ?_
  rw [same, backupPath, founded.lead_backup isName isVersion (isName_backup isName)]
  exact ⟨[r.version, r.file.fileName?.getD r.package], by simp⟩

/-- What has been recorded can be recorded again. -/
theorem writable_of_record {h : History} (sound : t.Sound)
    (ran : (a.record r).runOn t = (.ok h, next)) : a.Writable next r.package := by
  obtain ⟨_, made, copied, locked, make, backUp, lock, -, replace⟩ := record_steps ran
  have soundMade := sound.of_keepsDirs (builds_makeVersionDir.keepsDirs sound make)
  have soundCopied := soundMade.of_keepsDirs ((builds_backUp r).keepsDirs soundMade backUp)
  have second := (builds_openLock _).keepsDirs soundCopied lock
  have last := (builds_replace _ _).keepsDirs (soundCopied.of_keepsDirs second) replace
  obtain ⟨_, _, touch, -⟩ := Job.runOn_bind_ok lock
  obtain ⟨⟨_, _⟩, aimed, -⟩ := exists_ok_of_map (Job.settle_ok (Job.runOn_attempt_ok touch))
  obtain ⟨_, _, locked, -, -⟩ := Tree.placed_of_target aimed
  obtain ⟨_, _, drafted⟩ := drafted_of_replace replace
  exact ⟨⟨_, _, Tree.place_of_keepsDirs (second.trans last) locked⟩,
    ⟨_, _, Tree.place_of_keepsDirs last drafted⟩⟩

/-- What is kept of other versions stays where it is when an install is recorded. -/
theorem Tidy.stored_of_record {h : History} {other : String}
    (tidy : a.Tidy names records backups t) (naming : Naming names) (named : names r.package)
    (isVersion : Path.IsName r.version) (found : a.get? t r.package = some h)
    (different : other ≠ r.version) (kept : h.backups.get? other = some b) :
    a.Stored ((a.record r).runOn t).2 r.package other b := by
  have founded := tidy.toFounded
  have isName := naming.isName _ named
  refine (tidy.stored _ named h found other b kept).of_keeps founded isName
    (founded.grows_record isName isVersion).keepsDirs (founded.keeps_record isName isVersion)
    fun name => ?_
  rw [backupPath, founded.lead_backup isName isVersion (isName_backup isName)]
  rintro (same | there)
  · simp [different] at same
  · exact founded.not_belongs there

theorem Tidy.of_recorded {h : History} (tidy : a.Tidy names records backups t)
    (naming : Naming names) (named : names r.package) (isVersion : Path.IsName r.version)
    (away : ¬ backups <+: r.file.lead t.cwd) (held : t.read r.file = .ok content)
    (digest : r.digest? = some (.ofContent content))
    (ran : (a.record r).runOn t = (.ok h, next)) : a.Tidy names records backups next := by
  have founded := tidy.toFounded
  have isName := naming.isName _ named
  have canKeep := founded.canKeep isName isVersion away held
  have grows := founded.grows_record isName isVersion
  have keeps := founded.keepsChange_record isName isVersion
  rw [ran] at grows keeps
  obtain ⟨valid, made, copied, locked, make, backUp, lock, -, replace⟩ := record_steps ran
  obtain ⟨rfl, found, reach⟩ := get?_of_record valid (tidy.reach _ named valid)
    (fun same => canKeep.outside (.inl same)) ran
  have holds := holds_of_record founded.sound canKeep held ran
  refine tidy.of_change naming named grows keeps (fun _ => reach)
    (fun _ => writable_of_record founded.sound ran) fun h said version b kept => ?_
  obtain rfl := Option.some.inj (found.symm.trans said)
  rw [History.install, Table.get?_insert] at kept
  split at kept
  · rename_i same
    subst same
    obtain rfl := Option.some.inj kept
    refine ⟨isVersion, ⟨_, isName_backup isName, rfl⟩, content, holds.read, ?_⟩
    rw [Archive.kept, digest, Option.map_some, Option.getD_some, Digest.parse?_text]
  · rename_i different
    cases before : a.get? t r.package with
    | none =>
      rw [before] at kept
      cases kept
    | some h =>
      rw [before] at kept
      have stored := tidy.stored_of_record naming named isVersion before different kept
      rwa [ran] at stored

theorem Tidy.of_refused {e : Error} (tidy : a.Tidy names records backups t)
    (naming : Naming names) (named : names r.package) (isVersion : Path.IsName r.version)
    (ran : (a.record r).runOn t = (.error e, next)) : a.Tidy names records backups next := by
  have founded := tidy.toFounded
  have isName := naming.isName _ named
  have grows := founded.grows_record isName isVersion
  have keeps := founded.keepsChange_record isName isVersion
  rw [ran] at grows keeps
  by_cases valid : canNameFile r.package = true
  · have outside : (a.backupPath r.package r.version r.file).lead t.cwd ≠
        a.historyAt t r.package := by
      rw [backupPath, founded.lead_backup isName isVersion (isName_backup isName)]
      exact fun same => founded.not_belongs (.inl same)
    obtain ⟨same, reach⟩ := get?_of_record_error valid (tidy.reach _ named valid) outside ran
    refine tidy.of_change naming named grows keeps (fun _ => reach) (fun found => ?_)
      fun h found version b kept => ?_
    · rw [same] at found
      exact (tidy.writable _ named found).of_keepsDirs grows.keepsDirs
    · rw [same] at found
      have some_ : (a.get? t r.package).isSome := by rw [found]; rfl
      have untouched := founded.keeps_of_record_error isVersion (tidy.writable _ named some_)
        some_ ran
      exact (tidy.stored _ named h found version b kept).of_keeps founded isName grows.keepsDirs
        untouched fun _ => id
  · unfold record at ran
    rw [Job.runOn_bind, checkName, if_neg valid] at ran
    cases ran
    exact tidy

/-- An install of a file that does not lie among the backups leaves the archive tidy, recorded or
not, if its digest is the one that is recorded. -/
theorem Tidy.record (tidy : a.Tidy names records backups t) (naming : Naming names)
    (named : names r.package) (isVersion : Path.IsName r.version)
    (away : ¬ backups <+: r.file.lead t.cwd) (held : t.read r.file = .ok content)
    (digest : r.digest? = some (.ofContent content)) :
    a.Tidy names records backups ((a.record r).runOn t).2 := by
  cases ran : (a.record r).runOn t with
  | mk result next => cases result with
    | ok h => exact tidy.of_recorded naming named isVersion away held digest ran
    | error e => exact tidy.of_refused naming named isVersion ran

theorem Tidy.reinstate (tidy : a.Tidy names records backups t) (naming : Naming names)
    (named : names package) (version : String) :
    a.Tidy names records backups ((a.reinstate package version).runOn t).2 := by
  have founded := tidy.toFounded
  have grows : t.Grows _ (backups ++ [package] <+: ·) := founded.grows_reinstate package version
  have keeps := keeps_reinstate (a := a) (t := t) package version
  cases ran : (a.reinstate package version).runOn t with
  | mk result next =>
    rw [ran] at grows keeps
    by_cases valid : canNameFile package = true
    · have reach := tidy.reach _ named valid
      -- The versions that are kept are the same as before.
      obtain ⟨within, same⟩ : a.InReach next package ∧ ∀ h, a.get? next package = some h →
          ∃ before, a.get? t package = some before ∧ before.backups = h.backups := by
        cases result with
        | ok h =>
          obtain ⟨⟨before, held, -, rfl⟩, found, within⟩ := get?_of_reinstate valid reach ran
          refine ⟨within, fun h said => ⟨before, held, ?_⟩⟩
          rw [← Option.some.inj (found.symm.trans said)]
          rfl
        | error e =>
          obtain ⟨same, within⟩ := get?_of_reinstate_error valid reach ran
          exact ⟨within, fun h said => ⟨h, same ▸ said, rfl⟩⟩
      refine tidy.of_change naming named grows (keeps.imp fun _ => .inr) (fun _ => within)
        (fun found => ?_) fun h found version b kept => ?_
      · obtain ⟨h, found⟩ := Option.isSome_iff_exists.mp found
        obtain ⟨before, held, -⟩ := same h found
        exact (tidy.writable _ named (by rw [held]; rfl)).of_keepsDirs grows.keepsDirs
      · obtain ⟨before, before_, backups_⟩ := same h found
        rw [← backups_] at kept
        exact (tidy.stored _ named before before_ version b kept).of_keeps founded
          (naming.isName _ named) grows.keepsDirs keeps fun _ => founded.not_belongs
    · unfold Archive.reinstate at ran
      rw [Job.runOn_bind, checkName, if_neg valid] at ran
      cases ran
      exact tidy

/-- The archive stays tidy as long as its directories are there and nothing changes in them. -/
theorem Tidy.of_same (tidy : a.Tidy names records backups t) (naming : Naming names)
    (sound : next.Sound)
    (versionDir : next.Opened a.versionDir records) (backupDir : next.Opened a.backupDir backups)
    (histories : ∀ loc, records <+: loc → next.node? loc = t.node? loc)
    (copies : ∀ loc, backups <+: loc → next.node? loc = t.node? loc) :
    a.Tidy names records backups next := by
  have founded : a.Founded next records backups := {
    sound, versionDir, backupDir
    outside := tidy.outside
    flat := fun n => histories _ (List.prefix_append _ _) ▸ tidy.flat n }
  have back {package : String} {h : History} (found : a.get? next package = some h) :
      a.get? t package = some h := by
    have isName := isName_of_canNameFile (canNameFile_of_get? found)
    refine get?_of_read found fun content => versionDir.read_of_same tidy.versionDir
      (Path.below_join _ isName) (by simp) fun loc inside => (histories loc inside).symm
  have place {n : String} (isName : Path.IsName n) :
      next.place (a.versionDir.join n) = t.place (a.versionDir.join n) :=
    tidy.versionDir.place_join_eq versionDir isName
  refine ⟨founded, fun package named valid => ⟨sound, fun content there => ?_⟩,
    fun package named found => ?_, fun package named h found version b kept => ?_⟩
  · refine tidy.versionDir.read_of_same versionDir (Path.below_join _ (isName_of_canNameFile valid))
      (by simp) histories ((tidy.reach package named valid).read content ?_)
    rw [historyAt, tidy.at_eq]
    rw [historyAt, founded.at_eq] at there
    rw [← there, Tree.content?, Tree.content?, histories _ (List.prefix_append _ _)]
  · obtain ⟨h, found⟩ := Option.isSome_iff_exists.mp found
    have isName := naming.isName package named
    have writable := tidy.writable package named (by rw [back found]; rfl)
    refine ⟨?_, ?_⟩
    · rw [lockPath, place (isName_lock isName)]
      exact writable.lock
    · have draft := writable.draft
      rw [draftPath_eq_join isName] at draft ⊢
      rwa [place (isName_draft isName)]
  · have stored := tidy.stored package named h (back found) version b kept
    obtain ⟨name, isFile, file⟩ := stored.place
    have below := ((Path.below_join a.backupDir (naming.isName package named)).join
      stored.isName).join isFile
    refine stored.of_read fun content => ?_
    rw [file]
    exact tidy.backupDir.read_of_same backupDir below (by simp) copies

end Requests

end Archive
end OtaAgent
