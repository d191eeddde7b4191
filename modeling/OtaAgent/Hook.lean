import OtaAgent.Update
import OtaAgent.Archive

set_option autoImplicit false

namespace OtaAgent

/-- A panic, with its message if that is a text. -/
structure Panic where
  message? : Option String
  deriving DecidableEq, Repr

inductive Failure
  | error (e : Error)
  | panic (p : Panic)
  deriving DecidableEq, Repr

abbrev Answer (α : Type) := Except Failure α

/-- The agent's own state, and the files of its device. -/
structure Site (σ : Type) where
  own : σ
  files : Files.Tree

/-- Something the agent does for the course: what comes of it, and the site it leaves. -/
abbrev Deed (σ ρ : Type) := Site σ → ρ × Site σ

abbrev Hook (σ α : Type) := Deed σ (Answer α)

/-- A hook that has no error to give. -/
abbrev Notice (σ α : Type) := Deed σ (Except Panic α)

/-- What came of a transfer; status zero means success. -/
structure Transferred where
  status : Int
  /-- Where later steps find the file, if that changed. -/
  newPath : Option Path
  deriving DecidableEq, Repr

structure Prepared where
  status : InstallStatus
  newPath : Option Path
  deriving DecidableEq, Repr

/-- What came of an install. The agent holds the update meanwhile and may change all of it, whether
it then answers or fails. -/
structure Installed where
  answer : Answer InstallStatus
  update : Update

/-- What an agent makes of an install that leaves the update as it is. -/
structure Verdict where
  status : InstallStatus
  rollbackTo : Option String
  deriving DecidableEq, Repr

variable {σ α : Type}

def Hook.answer (a : α) : Hook σ α := fun site => (.ok a, site)

def Notice.answer (a : α) : Notice σ α := fun site => (.ok a, site)

def Hook.ofJob (job : FileJob α) : Hook σ α := fun site =>
  let (result, files) := job.runOn site.files
  (result.mapError .error, { site with files })

def Hook.recording (archive : Archive) (receipt : Receipt) : Hook σ Unit :=
  Hook.ofJob (do let _ ← archive.record receipt)

/-- An install that changes nothing in the update but the version to fall back to. -/
def Hook.installing (hook : Hook σ Verdict) (update : Update) : Deed σ Installed := fun site =>
  let (answer, site) := hook site
  (⟨answer.map (·.status), update.fallingBackTo (answer.toOption.bind (·.rollbackTo))⟩, site)

structure Agent (σ : Type) where
  init : Hook σ Unit := .answer ()
  confirmDownload : Release → Hook σ DownloadStatus := fun _ => .answer .consent
  transferFile : Update → Hook σ Transferred := fun _ => .answer ⟨0, none⟩
  prepareInstall : Update → Hook σ Prepared := fun _ => .answer ⟨.ready, none⟩
  /-- Checks before the install, which goes ahead on `inProgress`. -/
  preInstall : Update → Hook σ InstallStatus := fun _ => .answer .inProgress
  install : Update → Deed σ Installed
  postInstall : String → Hook σ Unit := fun _ => .answer ()
  getVersion : Archive → String → Hook σ (Option String) := fun archive package site =>
    (.ok (archive.current? site.files package), site)
  setVersion : Archive → Receipt → Hook σ Unit := Hook.recording
  /-- Told that the device manager came or went; the answer is advice. -/
  presence : Bool → Notice σ Int := fun _ => .answer 0
  /-- Offered the kind and text of every message first; `true` takes it. -/
  onMessage : String → String → Notice σ Bool := fun _ _ => .answer false

/-- An agent that leaves everything to the defaults and completes every install. -/
def Agent.minimal : Agent Unit where
  install := Hook.installing (.answer ⟨.completed, none⟩)

/-- Why a hook failed, as it is reported: a panic becomes an error of the hook. -/
def Failure.toError (hook : String) : Failure → Error
  | .error e => e
  | .panic ⟨some message⟩ => .hook hook ("panicked: " ++ message)
  | .panic ⟨none⟩ => .hook hook "panicked"

/-- A hook with what it was given and what came of it. -/
inductive HookCall
  | init (answer : Answer Unit)
  | confirmDownload (release : Release) (answer : Answer DownloadStatus)
  | transferFile (update : Update) (answer : Answer Transferred)
  | prepareInstall (update : Update) (answer : Answer Prepared)
  | preInstall (update : Update) (answer : Answer InstallStatus)
  | install (update : Update) (installed : Installed)
  | postInstall (package : String) (answer : Answer Unit)
  | getVersion (package : String) (answer : Answer (Option String))
  | setVersion (receipt : Receipt) (answer : Answer Unit)
  | presence (connected : Bool) (advice : Except Panic Int)
  | onMessage (kind : String) (taken : Except Panic Bool)

structure Call where
  hook : HookCall
  files : Files.Tree

end OtaAgent
