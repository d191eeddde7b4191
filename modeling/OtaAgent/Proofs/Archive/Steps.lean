import OtaAgent.Proofs.Files.Rules

set_option autoImplicit false

namespace OtaAgent

open Files

namespace Archive

variable {a : Archive} {package version : String} {r : Receipt}

section Still

theorem still_checkName (package : String) : Job.Still (checkName package) := by
  unfold checkName
  split
  · exact .pure ()
  · exact .throw _

theorem still_load (package : String) : Job.Still (a.load package) := by
  refine .bind (still_checkName package) fun _ => .bind (Job.still_ask_read _) fun reply => ?_
  split
  · exact .pure none
  · exact .throw _
  · split
    · exact .throw _
    · rename_i text _
      refine .bind ?_ fun _ => .pure _
      show Job.Still (ExceptT.mk (pure (a.interpret package text)) : FileJob History)
      exact fun _ _ => Script.leaves_done.mp

theorem still_base (package version : String) : Job.Still (a.base package version) :=
  .tryCatch (.bind (still_load package) fun _ => .pure _) fun _ => .pure _

theorem looks_load (package : String) : Job.Looks (a.load package) := (still_load package).looks

end Still

def conclude (a : Archive) (r : Receipt) (backup : Path) : FileJob History := do
  a.openLock r.package
  let base ← a.base r.package r.version
  let digest := (r.digest?.map (·.text)).getD ""
  let history := base.install r.version ⟨r.downloaded, digest, backup⟩
  a.replace r.package history
  return history

theorem record_eq (r : Receipt) : a.record r = checkName r.package >>= fun _ =>
    a.makeVersionDir >>= fun _ => a.backUp r >>= a.conclude r := rfl

/-- What is said of the operations by which the history of a package is replaced. -/
structure Replacing (goes ends : (α : Type) → FileJob α → Prop) (a : Archive) (package : String) :
    Prop where
  lock : Job.Attempts goes (.touch (a.lockPath package))
  create : Job.Attempts goes (.create (a.draftPath package))
  write : ∀ bytes, Job.Attempts goes (.append (a.draftPath package) bytes)
  rename : Job.Attempts ends (.rename (a.draftPath package) (a.historyPath package))

/-- What is said of the operations by which a file is backed up. -/
structure BackingUp (goes ends : (α : Type) → FileJob α → Prop) (a : Archive) (r : Receipt) :
    Prop where
  makeDirs : ∀ dir, (a.backupPath r.package r.version r.file).parent? = some dir →
    Job.Attempts goes (.makeDirs dir)
  copy : Job.Attempts ends (.copy r.file (a.backupPath r.package r.version r.file))

end Archive

namespace Files.Job.Rules

open Archive (canNameFile checkName)

variable {goes ends : (α : Type) → FileJob α → Prop} {a : Archive} {package version : String}
  {r : Receipt}

theorem makeVersionDir (rules : Rules goes ends) (made : Attempts goes (.makeDirs a.versionDir)) :
    goes Unit a.makeVersionDir :=
  rules.bind (made _) fun _ => rules.still (.pure _)

theorem backUp (rules : Rules goes ends) (backing : a.BackingUp goes ends r) :
    ends Path (a.backUp r) := by
  have copies : ends Path (do
      let _ ← attempt (.copy r.file (a.backupPath r.package r.version r.file))
        (.file (.backUp r.file (a.backupPath r.package r.version r.file)))
      return a.backupPath r.package r.version r.file) :=
    rules.bindPure (backing.copy _)
  unfold Archive.backUp
  dsimp only
  split
  · exact rules.last (rules.still (.pure _))
  · split
    · rename_i dir up
      exact rules.bindLast (backing.makeDirs dir up _) fun _ => copies
    · exact copies

theorem openLock (rules : Rules goes ends) (replacing : a.Replacing goes ends package) :
    goes Unit (a.openLock package) :=
  rules.bind (replacing.lock _) fun _ => rules.still (.pure _)

theorem replace (rules : Rules goes ends) (replacing : a.Replacing goes ends package)
    (h : History) : ends Unit (a.replace package h) :=
  rules.bindLast (replacing.create _) fun _ => rules.bindLast (replacing.write _ _) fun _ =>
    rules.bindPure (replacing.rename _)

theorem conclude (rules : Rules goes ends) (replacing : a.Replacing goes ends r.package)
    (backup : Path) : ends History (a.conclude r backup) :=
  rules.bindLast (rules.openLock replacing) fun _ =>
    rules.bindLast (rules.still (Archive.still_base _ _)) fun _ =>
      rules.bindPure (rules.replace replacing _)

/-- A package that cannot name a file is refused before anything else. -/
theorem named (rules : Rules goes ends) {β : Type} {f : Unit → FileJob β}
    (rest : canNameFile package = true → ends β (f ())) : ends β (checkName package >>= f) := by
  by_cases valid : canNameFile package = true
  · exact rules.bindLast (rules.still (Archive.still_checkName package)) fun _ => rest valid
  · rw [checkName, if_neg valid]
    exact rules.last (rules.still (.throw _))

theorem record (rules : Rules goes ends)
    (made : canNameFile r.package = true → Attempts goes (.makeDirs a.versionDir))
    (backing : canNameFile r.package = true → a.BackingUp goes goes r)
    (replacing : canNameFile r.package = true → a.Replacing goes ends r.package) :
    ends History (a.record r) := by
  rw [Archive.record_eq]
  refine rules.named fun valid => rules.bindLast (rules.makeVersionDir (made valid)) fun _ => ?_
  exact rules.bindLast (rules.whole.backUp (backing valid)) (rules.conclude (replacing valid))

theorem reinstate (rules : Rules goes ends)
    (made : canNameFile package = true → Attempts goes (.makeDirs a.versionDir))
    (replacing : canNameFile package = true → a.Replacing goes ends package) :
    ends History (a.reinstate package version) := by
  refine rules.named fun valid => rules.bindLast (rules.makeVersionDir (made valid)) fun _ => ?_
  refine rules.bindLast (rules.openLock (replacing valid)) fun _ => ?_
  refine rules.bindLast (rules.still (Archive.still_load _)) fun found => ?_
  cases found with
  | none => exact rules.last (rules.still (.throw _))
  | some history =>
    have goesOn : ends History (if history.current = version then
        return history
      else do
        a.replace package (history.goBackTo version)
        return history.goBackTo version) := by
      split
      · exact rules.last (rules.still (.pure _))
      · exact rules.bindPure (rules.replace (replacing valid) _)
    dsimp only
    split
    · exact rules.bindLast (rules.still (.throw _)) fun _ => goesOn
    · exact goesOn

end Files.Job.Rules

end OtaAgent
