import OtaAgent.Proofs.Archive.History
import OtaAgent.Proofs.Archive.Steps
import OtaAgent.Proofs.Text.Utf8

set_option autoImplicit false

namespace OtaAgent

open Files

namespace Path

/-- A text with no slash that is longer than `..` is one name. -/
theorem isName_of_length {n : String} (noSlash : '/' ∉ n.toList) (long : 2 < n.toList.length) :
    IsName n where
  notEmpty := by rintro rfl; simp at long
  notHere := by rintro rfl; simp at long
  notUp := by rintro rfl; simp at long
  noSlash := noSlash

end Path

namespace Archive

variable {a : Archive} {package version : String} {t next : Tree}

theorem isName_of_canNameFile (valid : canNameFile package = true) : Path.IsName package := by
  simp only [canNameFile, Bool.and_eq_true, bne_iff_ne, List.all_eq_true] at valid
  obtain ⟨⟨⟨notEmpty, notHere⟩, notUp⟩, plain⟩ := valid
  exact ⟨notEmpty, notHere, notUp, fun slash => by simpa using plain '/' slash⟩

theorem noNul_of_canNameFile (valid : canNameFile package = true) : '\x00' ∉ package.toList := by
  simp only [canNameFile, Bool.and_eq_true, List.all_eq_true] at valid
  exact fun inside => by simpa using valid.2 '\x00' inside

theorem isName_lock (isName : Path.IsName package) : Path.IsName ("." ++ package ++ ".lock") :=
  Path.isName_of_length (by simp [isName.noSlash]) (by simp)

theorem isName_draft (isName : Path.IsName package) : Path.IsName (package ++ ".tmp") :=
  Path.isName_of_length (by simp [isName.noSlash]) (by simp)

theorem isName_backup {file : Path} (isName : Path.IsName package) :
    Path.IsName (file.fileName?.getD package) := by
  cases named : file.fileName? with
  | none => exact isName
  | some name => exact Path.isName_of_fileName? named

variable (a)

def at_ (t : Tree) : Location := a.versionDir.lead t.cwd

def historyAt (t : Tree) (package : String) : Location := a.at_ t ++ [package]

/-- The history that the file of `package` says; one that says none counts as none. -/
def recorded? (t : Tree) (package : String) : Option History := do
  let text ← Text.Utf8.decode? (← t.content? (a.historyAt t package))
  (a.interpret package text).toOption

def kept (r : Receipt) : Backup :=
  ⟨r.downloaded, (r.digest?.map (·.text)).getD "", a.backupPath r.package r.version r.file⟩

/-- Where files are written while a history is replaced. -/
def Scratch (t : Tree) (package : String) (loc : Location) : Prop :=
  loc = a.at_ t ++ ["." ++ package ++ ".lock"] ∨ loc = a.at_ t ++ [package ++ ".tmp"]

/-- Where files are while a history is replaced, the history itself included. -/
def Belongs (t : Tree) (package : String) (loc : Location) : Prop :=
  loc = a.historyAt t package ∨ a.Scratch t package loc

variable {a}

theorem at_of_cwd (same : next.cwd = t.cwd) : a.at_ next = a.at_ t := by
  rw [at_, at_, same]

theorem historyAt_of_at (same : a.at_ next = a.at_ t) :
    a.historyAt next package = a.historyAt t package := by
  rw [historyAt, historyAt, same]

theorem historyAt_of_cwd (same : next.cwd = t.cwd) :
    a.historyAt next package = a.historyAt t package := historyAt_of_at (at_of_cwd same)

theorem scratch_of_at (same : a.at_ next = a.at_ t) :
    a.Scratch next package = a.Scratch t package := by
  funext loc
  rw [Scratch, Scratch, same]

theorem belongs_of_at (same : a.at_ next = a.at_ t) :
    a.Belongs next package = a.Belongs t package := by
  funext loc
  rw [Belongs, Belongs, historyAt_of_at same, scratch_of_at same]

theorem recorded?_of_keeps {places : Location → Prop} (keeps : t.Keeps next places)
    (outside : ¬ places (a.historyAt t package)) :
    a.recorded? next package = a.recorded? t package := by
  rw [recorded?, recorded?, historyAt_of_cwd keeps.cwd, keeps.content _ outside]

theorem historyAt_ne_of_length {other : String} (longer : package.length < other.length) :
    a.historyAt t package ≠ a.at_ t ++ [other] := by
  intro same
  have names := List.append_cancel_left same
  simp only [List.cons.injEq, and_true] at names
  rw [names] at longer
  exact Nat.lt_irrefl _ longer

theorem not_scratch_historyAt : ¬ a.Scratch t package (a.historyAt t package) := by
  intro there
  rcases there with lock | draft
  · refine historyAt_ne_of_length ?_ lock
    have dot : ".".length = 1 := rfl
    rw [String.length_append, String.length_append]
    omega
  · refine historyAt_ne_of_length ?_ draft
    have suffix : ".tmp".length = 4 := rfl
    rw [String.length_append]
    omega

theorem interpret_text {h : History} (sorted : h.backups.Sorted)
    (consistent : h.isConsistent = true) :
    a.interpret package h.text = .ok h := by
  simp [interpret, History.parse?_text sorted, consistent]

theorem recorded?_of_text {h : History} (sorted : h.backups.Sorted)
    (consistent : h.isConsistent = true)
    (there : t.content? (a.historyAt t package) = some (Text.Utf8.encode h.text)) :
    a.recorded? t package = some h := by
  simp [recorded?, there, Text.Utf8.decode?_encode, interpret_text sorted consistent,
    Except.toOption]

theorem sorted_of_recorded? {h : History} (found : a.recorded? t package = some h) :
    h.backups.Sorted := by
  obtain ⟨content, -, found⟩ := Option.bind_eq_some_iff.mp found
  obtain ⟨text, -, found⟩ := Option.bind_eq_some_iff.mp found
  cases parsed : History.parse? text with
  | none => simp [interpret, parsed, Except.toOption] at found
  | some history =>
    by_cases consistent : history.isConsistent
    · simp only [interpret, parsed, consistent, if_true, Except.toOption,
        Option.some.injEq] at found
      subst found
      exact History.sorted_of_parse? parsed
    · simp [interpret, parsed, consistent, Except.toOption] at found

theorem backups_goBackTo (h : History) (version : String) :
    (h.goBackTo version).backups = h.backups := rfl

theorem isConsistent_install (h : History) (version : String) (b : Backup) :
    (h.install version b).isConsistent = true := by
  simp [History.isConsistent, History.install, Table.contains, Table.get?_insert]

theorem isConsistent_goBackTo {h : History} (contained : h.backups.contains version = true) :
    (h.goBackTo version).isConsistent = true := by
  simp [History.isConsistent, History.goBackTo, contained]

section Jobs

variable {cwd : Location}

theorem lead_lock (isName : Path.IsName package) :
    (a.lockPath package).lead t.cwd = a.at_ t ++ ["." ++ package ++ ".lock"] :=
  Path.lead_join _ _ (isName_lock isName)

theorem draftPath_eq_join (isName : Path.IsName package) :
    a.draftPath package = a.versionDir.join (package ++ ".tmp") :=
  Path.join_suffixed _ isName (isName_draft isName)

theorem lead_draft (isName : Path.IsName package) :
    (a.draftPath package).lead t.cwd = a.at_ t ++ [package ++ ".tmp"] := by
  rw [draftPath_eq_join isName]
  exact Path.lead_join _ _ (isName_draft isName)

theorem lead_history (isName : Path.IsName package) :
    (a.historyPath package).lead t.cwd = a.historyAt t package :=
  Path.lead_join _ _ isName

/-- A history is replaced by operations on single files beside it, and by moving the draft in its
place. -/
theorem replacing_of_inside {goes ends : (α : Type) → FileJob α → Prop}
    (isName : Path.IsName package)
    (scratch : ∀ op : Op, op.Plain → (∀ loc, op.Touches t.cwd loc → a.Scratch t package loc) →
      Job.Attempts goes op)
    (rename : (∀ loc,
        Op.Touches t.cwd (.rename (a.draftPath package) (a.historyPath package)) loc →
          a.Belongs t package loc) →
      Job.Attempts ends (.rename (a.draftPath package) (a.historyPath package))) :
    a.Replacing goes ends package where
  lock := scratch _ trivial fun _ same => .inl (same.trans (lead_lock isName))
  create := scratch _ trivial fun _ same => .inr (same.trans (lead_draft isName))
  write _ := scratch _ trivial fun _ same => .inr (same.trans (lead_draft isName))
  rename := rename fun _ there => there.symm.imp (·.trans (lead_history isName))
    fun same => .inr (same.trans (lead_draft isName))

theorem replacing_within (isName : Path.IsName package) :
    a.Replacing (fun _ => Job.Within t.cwd (a.Belongs t package))
      (fun _ => Job.Within t.cwd (a.Belongs t package)) package :=
  replacing_of_inside isName
    (fun _ _ inside _ => Job.within_attempt fun loc there => .inr (inside loc there))
    fun inside _ => Job.within_attempt inside

theorem replacing_failsWithin {places : Location → Prop} (isName : Path.IsName package)
    (inside : ∀ loc, a.Scratch t package loc → places loc) :
    a.Replacing (fun _ => Job.Within t.cwd places) (fun _ => Job.FailsWithin t.cwd places)
      package :=
  replacing_of_inside isName
    (fun _ _ there _ => Job.within_attempt fun loc touched => inside loc (there loc touched))
    fun _ _ => Job.failsWithin_attempt fun _ => ⟨_, rfl⟩

theorem backingUp_within {places : Location → Prop} {r : Receipt}
    (inside : places ((a.backupPath r.package r.version r.file).lead cwd)) :
    a.BackingUp (fun _ => Job.Within cwd places) (fun _ => Job.Within cwd places) r where
  makeDirs _ _ _ := Job.within_attempt fun _ => False.elim
  copy _ := Job.within_attempt fun _ same => same ▸ inside

theorem attempts_within_makeDirs {places : Location → Prop} {dir : Path} :
    Job.Attempts (fun _ (job : FileJob _) => Job.Within cwd places job) (.makeDirs dir) :=
  fun _ => Job.within_attempt fun _ => False.elim

theorem within_makeVersionDir : Job.Within cwd (fun _ => False) a.makeVersionDir :=
  Job.rules_within.makeVersionDir attempts_within_makeDirs

theorem within_backUp (r : Receipt) :
    Job.Within cwd (· = (a.backupPath r.package r.version r.file).lead cwd) (a.backUp r) :=
  Job.rules_within.backUp (backingUp_within rfl)

theorem within_openLock (isName : Path.IsName package) :
    Job.Within t.cwd (a.Scratch t package) (a.openLock package) :=
  Job.rules_failsWithin.openLock (replacing_failsWithin isName fun _ => id)

theorem within_replace (isName : Path.IsName package) (h : History) :
    Job.Within t.cwd (a.Belongs t package) (a.replace package h) :=
  Job.rules_within.replace (replacing_within isName) h

theorem runOn_checkName (valid : canNameFile package = true) :
    (checkName package).runOn t = (.ok (), t) := by
  rw [checkName, if_pos valid]
  rfl

theorem canNameFile_of_runOn {u : Unit} (ran : (checkName package).runOn t = (.ok u, next)) :
    canNameFile package = true ∧ t = next := by
  unfold checkName at ran
  split at ran
  · rename_i valid
    cases ran
    exact ⟨valid, rfl⟩
  · cases ran

/-- A history that is loaded is the one that the file of the package says. -/
theorem recorded?_of_load {h : History} (valid : canNameFile package = true)
    (ran : ((a.load package).runOn t).1 = .ok (some h)) : a.recorded? t package = some h := by
  unfold load at ran
  rw [Job.runOn_bind, runOn_checkName valid] at ran
  simp only [Job.runOn_bind, Job.runOn_ask, Op.apply] at ran
  split at ran
  · cases ran
  · cases ran
  · rename_i content held
    obtain ⟨⟨loc, _⟩, found, rfl⟩ := exists_ok_of_map held
    obtain ⟨rfl, there⟩ := Tree.fileAt_lead found
    rw [lead_history (isName_of_canNameFile valid)] at there
    split at ran
    · cases ran
    · rename_i text decoded
      rw [Job.runOn_bind] at ran
      simp only [recorded?, Tree.content?_of_file there, Option.bind_eq_bind, Option.bind_some,
        decoded]
      cases said : a.interpret package text with
      | ok history =>
        rw [said] at ran
        cases ran
        rfl
      | error e =>
        rw [said] at ran
        cases ran

/-- Where the path of the file leads somewhere, what the file says is what is loaded. -/
theorem get?_eq_recorded? {parent : Location} (valid : canNameFile package = true)
    (placed : t.place (a.historyPath package) = .ok (.entry parent package false)) :
    a.get? t package = a.recorded? t package := by
  have here : parent ++ [package] = a.historyAt t package :=
    (Tree.place_entry placed).trans (lead_history (isName_of_canNameFile valid))
  unfold get? load
  rw [Job.runOn_bind, runOn_checkName valid]
  simp only [Job.runOn_bind, Job.runOn_ask, Op.apply, Tree.read_of_place placed, here, recorded?,
    Tree.content?]
  cases t.node? (a.historyAt t package) with
  | none => rfl
  | some node => cases node with
    | dir => rfl
    | file content =>
      simp only [Node.content?, Option.bind_eq_bind, Option.bind_some]
      cases Text.Utf8.decode? content with
      | none => rfl
      | some text =>
        simp only [Job.runOn_bind, Option.bind_some]
        cases a.interpret package text <;> rfl

theorem runOn_base : (a.base package version).runOn t =
    (.ok ((a.get? t package).getD (.fresh version)), t) := by
  have same := looks_load (a := a) package t
  unfold base get?
  rw [Job.runOn_tryCatch, Job.runOn_bind]
  cases ran : (a.load package).runOn t with
  | mk result next =>
    rw [ran] at same
    subst same
    cases result <;> rfl

theorem runOn_backUp {r : Receipt} {backup : Path}
    (ran : (a.backUp r).runOn t = (.ok backup, next)) :
    backup = a.backupPath r.package r.version r.file := by
  unfold backUp at ran
  dsimp only at ran
  split at ran
  · cases ran
    rfl
  · split at ran
    · obtain ⟨_, _, -, ran⟩ := Job.runOn_bind_ok ran
      obtain ⟨_, _, -, ran⟩ := Job.runOn_bind_ok ran
      cases ran
      rfl
    · obtain ⟨_, _, -, ran⟩ := Job.runOn_bind_ok ran
      cases ran
      rfl

/-- Where files are written while an install is recorded, but for the history itself. -/
def Beside (a : Archive) (t : Tree) (r : Receipt) (loc : Location) : Prop :=
  loc = (a.backupPath r.package r.version r.file).lead t.cwd ∨ a.Scratch t r.package loc

theorem not_beside_historyAt {r : Receipt}
    (outside : (a.backupPath r.package r.version r.file).lead t.cwd ≠ a.historyAt t r.package) :
    ¬ a.Beside t r (a.historyAt t r.package) := by
  intro there
  rcases there with same | scratch
  · exact outside same.symm
  · exact not_scratch_historyAt scratch

theorem failsWithin_record (r : Receipt) :
    Job.FailsWithin t.cwd (a.Beside t r) (a.record r) :=
  Job.rules_failsWithin.record (fun _ => attempts_within_makeDirs)
    (fun _ => backingUp_within (.inl rfl))
    fun valid => replacing_failsWithin (isName_of_canNameFile valid) fun _ => .inr

/-- The steps in which a history is put in place. -/
theorem replace_steps {h : History} {u : Unit}
    (ran : (a.replace package h).runOn t = (.ok u, next)) :
    ∃ created written, t.create (a.draftPath package) = .ok created ∧
      created.append (a.draftPath package) (Text.Utf8.encode h.text) = .ok written ∧
      written.rename (a.draftPath package) (a.historyPath package) = .ok next := by
  obtain ⟨_, created, create, ran⟩ := Job.runOn_bind_ok ran
  obtain ⟨_, written, append, ran⟩ := Job.runOn_bind_ok ran
  obtain ⟨_, renamed, rename, ran⟩ := Job.runOn_bind_ok ran
  cases ran
  exact ⟨created, written, Job.settle_ok (Job.runOn_attempt_ok create),
    Job.settle_ok (Job.runOn_attempt_ok append), Job.settle_ok (Job.runOn_attempt_ok rename)⟩

/-- A history that has been put in place is what the file of the package says. -/
theorem runOn_replace {h : History} {u : Unit} (isName : Path.IsName package)
    (sorted : h.backups.Sorted) (consistent : h.isConsistent = true)
    (ran : (a.replace package h).runOn t = (.ok u, next)) :
    a.recorded? next package = some h ∧
      t.Keeps next (a.Belongs t package) := by
  obtain ⟨created, written, create, append, rename⟩ := replace_steps ran
  obtain ⟨content, keeps⟩ := Tree.replaced create append rename
  rw [lead_history isName] at content keeps
  rw [lead_draft isName] at keeps
  refine ⟨recorded?_of_text sorted consistent ?_, keeps.imp fun _ => .imp_right .inr⟩
  rwa [historyAt_of_cwd keeps.cwd]

/-- Where a draft can be made, the path of the history leads somewhere. -/
theorem drafted_of_replace {h : History} {u : Unit}
    (ran : (a.replace package h).runOn t = (.ok u, next)) :
    ∃ parent name, t.place (a.draftPath package) = .ok (.entry parent name false) := by
  obtain ⟨_, _, create, -⟩ := replace_steps ran
  exact Tree.place_of_create create

/-- Where the path of a draft leads somewhere, that of the history leads into the same directory. -/
theorem placed_of_drafted {parent : Location} {name : String} (valid : canNameFile package = true)
    (placed : t.place (a.draftPath package) = .ok (.entry parent name false)) :
    t.place (a.historyPath package) = .ok (.entry parent package false) := by
  have isName := isName_of_canNameFile valid
  rw [draftPath_eq_join isName] at placed
  refine Tree.place_sibling isName (isName_draft isName) ?_ (noNul_of_canNameFile valid) placed
  rw [String.utf8ByteSize_append]
  exact Nat.le_add_right _ _

theorem get?_of_drafted (valid : canNameFile package = true)
    (drafted : ∃ parent name, t.place (a.draftPath package) = .ok (.entry parent name false)) :
    a.get? t package = a.recorded? t package := by
  obtain ⟨parent, name, placed⟩ := drafted
  exact get?_eq_recorded? valid (placed_of_drafted valid placed)

theorem sorted_getD_recorded? (t : Tree) (package version : String) :
    ((a.recorded? t package).getD (.fresh version)).backups.Sorted := by
  cases found : a.recorded? t package with
  | none => exact List.Pairwise.nil
  | some h => exact sorted_of_recorded? found

/-- The steps of a recording that is granted. -/
theorem record_steps {r : Receipt} {h : History} (ran : (a.record r).runOn t = (.ok h, next)) :
    canNameFile r.package = true ∧ ∃ made copied locked,
      a.makeVersionDir.runOn t = (.ok (), made) ∧
      (a.backUp r).runOn made = (.ok (a.backupPath r.package r.version r.file), copied) ∧
      (a.openLock r.package).runOn copied = (.ok (), locked) ∧
      h = ((a.get? locked r.package).getD (.fresh r.version)).install r.version (a.kept r) ∧
      (a.replace r.package h).runOn locked = (.ok (), next) := by
  unfold record at ran
  obtain ⟨_, _, named, ran⟩ := Job.runOn_bind_ok ran
  obtain ⟨valid, rfl⟩ := canNameFile_of_runOn named
  obtain ⟨_, made, make, ran⟩ := Job.runOn_bind_ok ran
  obtain ⟨backup, copied, backUp, ran⟩ := Job.runOn_bind_ok ran
  obtain rfl := runOn_backUp backUp
  obtain ⟨_, locked, lock, ran⟩ := Job.runOn_bind_ok ran
  obtain ⟨base, read, begun, ran⟩ := Job.runOn_bind_ok ran
  rw [runOn_base, Prod.mk.injEq, Except.ok.injEq] at begun
  obtain ⟨rfl, rfl⟩ := begun
  obtain ⟨_, _, replace, ran⟩ := Job.runOn_bind_ok ran
  rw [Job.runOn_pure, Prod.mk.injEq, Except.ok.injEq] at ran
  obtain ⟨rfl, rfl⟩ := ran
  exact ⟨valid, made, copied, locked, make, backUp, lock, rfl, replace⟩

/-- Recording an install succeeds with the history that the file said before, in which only the
version of the install is new and what is kept of it, and with that history in the file. -/
theorem runOn_record {r : Receipt} {h : History}
    (outside : (a.backupPath r.package r.version r.file).lead t.cwd ≠ a.historyAt t r.package)
    (ran : (a.record r).runOn t = (.ok h, next)) :
    h = ((a.recorded? t r.package).getD (.fresh r.version)).install r.version (a.kept r) ∧
      a.recorded? next r.package = some h ∧
      t.Keeps next (fun loc => loc = a.historyAt t r.package ∨ a.Beside t r loc) := by
  obtain ⟨valid, made, copied, locked, make, backUp, lock, rfl, replace⟩ := record_steps ran
  have isName := isName_of_canNameFile valid
  have first : t.Keeps made fun _ => False := within_makeVersionDir.keeps rfl make
  have second := (within_backUp r).keeps first.cwd backUp
  have third : copied.Keeps locked (a.Scratch t r.package) :=
    (within_openLock isName).keeps (second.cwd.trans first.cwd) lock
  have beside : t.Keeps locked (a.Beside t r) := (first.imp fun _ => False.elim).trans
    ((second.imp fun _ => .inl).trans (third.imp fun _ => .inr))
  have before : a.get? locked r.package = a.recorded? t r.package :=
    (get?_of_drafted valid (drafted_of_replace replace)).trans
      (recorded?_of_keeps beside (not_beside_historyAt outside))
  rw [before] at replace ⊢
  obtain ⟨said, replaced⟩ := runOn_replace isName
    ((sorted_getD_recorded? t r.package r.version).insert _ _) (isConsistent_install ..) replace
  rw [belongs_of_at (at_of_cwd beside.cwd)] at replaced
  exact ⟨rfl, said, (beside.imp fun _ => .inr).trans (replaced.imp fun _ => .imp_right .inr)⟩

theorem failsWithin_reinstate (package version : String) :
    Job.FailsWithin t.cwd (a.Scratch t package) (a.reinstate package version) :=
  Job.rules_failsWithin.reinstate (fun _ => attempts_within_makeDirs)
    fun valid => replacing_failsWithin (isName_of_canNameFile valid) fun _ => id

/-- Reinstating a version succeeds if the file of the package says a history that has it; the
version then is the current one and nothing else has changed. -/
theorem runOn_reinstate {h : History}
    (ran : (a.reinstate package version).runOn t = (.ok h, next)) :
    (∃ before, a.recorded? t package = some before ∧ before.backups.contains version = true ∧
      h = before.goBackTo version) ∧
      a.recorded? next package = some h ∧
      t.Keeps next (a.Belongs t package) := by
  unfold reinstate at ran
  obtain ⟨_, _, named, ran⟩ := Job.runOn_bind_ok ran
  obtain ⟨valid, rfl⟩ := canNameFile_of_runOn named
  have isName := isName_of_canNameFile valid
  obtain ⟨_, made, make, ran⟩ := Job.runOn_bind_ok ran
  obtain ⟨_, locked, lock, ran⟩ := Job.runOn_bind_ok ran
  obtain ⟨found, read, load, ran⟩ := Job.runOn_bind_ok ran
  have unmoved := looks_load (a := a) package locked
  rw [load] at unmoved
  obtain rfl : locked = read := unmoved.symm
  have first : t.Keeps made fun _ => False := within_makeVersionDir.keeps rfl make
  have beside : t.Keeps locked (a.Scratch t package) :=
    (first.imp fun _ => False.elim).trans ((within_openLock isName).keeps first.cwd lock)
  cases found with
  | none => cases ran
  | some before =>
    have same : a.recorded? locked package = a.recorded? t package :=
      recorded?_of_keeps beside not_scratch_historyAt
    have said : a.recorded? t package = some before :=
      same.symm.trans (recorded?_of_load valid (by rw [load]))
    dsimp only at ran
    split at ran
    · obtain ⟨_, _, thrown, -⟩ := Job.runOn_bind_ok ran
      cases thrown
    · rename_i contained
      have contained : before.backups.contains version = true := by simpa using contained
      split at ran
      · rename_i current
        rw [Job.runOn_pure, Prod.mk.injEq, Except.ok.injEq] at ran
        obtain ⟨rfl, rfl⟩ := ran
        have back : before.goBackTo version = before := by
          rw [← current]
          rfl
        exact ⟨⟨before, said, contained, back.symm⟩, same.trans said, beside.imp fun _ => .inr⟩
      · obtain ⟨_, _, replace, ran⟩ := Job.runOn_bind_ok ran
        rw [Job.runOn_pure, Prod.mk.injEq, Except.ok.injEq] at ran
        obtain ⟨rfl, rfl⟩ := ran
        have sorted : (before.goBackTo version).backups.Sorted := by
          rw [backups_goBackTo]
          exact sorted_of_recorded? said
        have consistent : (before.goBackTo version).isConsistent = true :=
          isConsistent_goBackTo contained
        obtain ⟨there, replaced⟩ := runOn_replace isName sorted consistent replace
        rw [belongs_of_at (at_of_cwd beside.cwd)] at replaced
        exact ⟨⟨before, said, contained, rfl⟩, there, (beside.imp fun _ => .inr).trans replaced⟩

end Jobs

end Archive
end OtaAgent
