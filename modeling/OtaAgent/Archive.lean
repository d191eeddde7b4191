import OtaAgent.Digest
import OtaAgent.Fault
import OtaAgent.Files.Script
import OtaAgent.Archive.History

set_option autoImplicit false

namespace OtaAgent

open Files

/-- A script that may give up with an error of the agent. -/
abbrev FileJob (α : Type) := Job Error α

/-- What an install leaves to be recorded. -/
structure Receipt where
  package : String
  version : String
  received : Option String
  computed : Option String
  downloaded : Bool
  file : Path
  deriving DecidableEq, Repr

/-- The digest that is recorded: the first that can be read of the one received and the one
computed here. -/
def Receipt.digest? (r : Receipt) : Option Digest :=
  match r.received.bind Digest.parse? with
  | some d => some d
  | none => r.computed.bind Digest.parse?

structure Archive where
  versionDir : Path
  backupDir : Path
  deriving DecidableEq, Repr

namespace Archive

variable (a : Archive)

def canNameFile (package : String) : Bool :=
  package != "" && package != "." && package != ".." &&
    package.toList.all fun c => c != '/' && c != '\\' && c != '\x00'

def historyPath (package : String) : Path := a.versionDir.join package

def lockPath (package : String) : Path := a.versionDir.join ("." ++ package ++ ".lock")

def draftPath (package : String) : Path := (a.historyPath package).suffixed ".tmp"

/-- Where the file of a version is backed up: under its own name, or the package's if it has
none. -/
def backupPath (package version : String) (file : Path) : Path :=
  ((a.backupDir.join package).join version).join (file.fileName?.getD package)

def checkName (package : String) : FileJob Unit :=
  if canNameFile package then pure () else throw (.archive (.badName package))

/-- The history that a text of the package's file says. -/
def interpret (package text : String) : Except Error History :=
  match History.parse? text with
  | none => .error (.format (.corruptHistory (a.historyPath package)))
  | some history =>
    if history.isConsistent then .ok history
    else .error (.format (.currentOutsideHistory (a.historyPath package) history.current))

def load (package : String) : FileJob (Option History) := do
  checkName package
  let path := a.historyPath package
  match ← Job.ask (.read path) with
  | .error .notFound => return none
  | .error e => throw (.archive (.unreadable path e))
  | .ok content =>
    match Text.Utf8.decode? content with
    | none => throw (.archive (.unreadable path .notText))
    | some text => return some (← ExceptT.mk (pure (a.interpret package text)))

/-- The history of `package` in `t`; one that cannot be read counts as none. -/
def get? (t : Tree) (package : String) : Option History :=
  match ((a.load package).runOn t).1 with
  | .ok history => history
  | .error _ => none

def current? (t : Tree) (package : String) : Option String :=
  (a.get? t package).map (·.current)

def backup? (t : Tree) (package version : String) : Option Backup :=
  (a.get? t package).bind (·.backups.get? version)

def makeVersionDir : FileJob Unit := do
  let _ ← Job.attempt (.makeDirs a.versionDir) (.file (.makeVersionDir a.versionDir))

/-- Copies the file to where it is backed up, unless it lies there. -/
def backUp (r : Receipt) : FileJob Path := do
  let backup := a.backupPath r.package r.version r.file
  if backup.same r.file then return backup
  if let some dir := backup.parent? then
    let _ ← Job.attempt (.makeDirs dir) (.file (.makeBackupDir dir))
  let _ ← Job.attempt (.copy r.file backup) (.file (.backUp r.file backup))
  return backup

def openLock (package : String) : FileJob Unit := do
  let lock := a.lockPath package
  let _ ← Job.attempt (.touch lock) (fun e => .archive (.lockNotOpened lock e))

/-- Puts `history` in the place of what is archived of `package`. -/
def replace (package : String) (history : History) : FileJob Unit := do
  let path := a.historyPath package
  let draft := a.draftPath package
  let _ ← Job.attempt (.create draft) (fun e => .archive (.notCreated draft e))
  let _ ← Job.attempt (.append draft (Text.Utf8.encode history.text))
    (fun e => .archive (.notWritten draft e))
  let _ ← Job.attempt (.rename draft path) (fun e => .archive (.notReplaced path draft e))

/-- What an install is added to: a history that cannot be read is given up. -/
def base (package version : String) : FileJob History :=
  tryCatch (do return (← a.load package).getD (.fresh version))
    fun _ => return .fresh version

/-- Records an install: keeps a copy of the file, adds the version to the history and makes it the
current one. -/
def record (r : Receipt) : FileJob History := do
  checkName r.package
  a.makeVersionDir
  let backup ← a.backUp r
  a.openLock r.package
  let base ← a.base r.package r.version
  let digest := (r.digest?.map (·.text)).getD ""
  let history := base.install r.version ⟨r.downloaded, digest, backup⟩
  a.replace r.package history
  return history

/-- Makes a version of the history the current one again. -/
def reinstate (package version : String) : FileJob History := do
  checkName package
  a.makeVersionDir
  a.openLock package
  let some history ← a.load package | throw (.archive (.noHistory package))
  if !history.backups.contains version then throw (.archive (.noVersion package version))
  if history.current = version then return history
  let restored := history.goBackTo version
  a.replace package restored
  return restored

end Archive

def fileDigest (p : Path) : FileJob Digest := do
  let _ ← Job.attempt (.openFile p) (.file (.openForHash p))
  return Digest.ofContent (← Job.attempt (.read p) (.file (.hash p)))

end OtaAgent
