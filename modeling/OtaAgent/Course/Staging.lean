import OtaAgent.Course.Ending

set_option autoImplicit false

namespace OtaAgent

inductive Readiness
  | ready (update : Update)
  | ended (status : InstallStatus)
  deriving DecidableEq, Repr

namespace Course

variable {σ : Type}

def stagedFor? (s : Station σ) (order : Order) : Option Update :=
  if s.phase = .preInstall then
    s.staged.filter fun update => update.isStaged && update.isFor order
  else none

/-- What `order` announces has been agreed to or postponed. -/
def awaits (s : Station σ) (order : Order) : Bool := s.awaited == some order.release

/-- Waits for a file, which nothing needs to be agreed about any more. -/
def awaitTransfer : Course σ Unit := do
  if (← get).phase ≠ .awaitingTransfer then enter .awaitingTransfer
  modify fun s => { s with awaited := none }

/-- Makes `order` the one that is under way, with its file yet to come. -/
def takeUp (d : Device σ) (order : Order) : Course σ Unit := do
  let s ← get
  let expected := (s.phase = .confirmDownload ∨ s.phase = .awaitingTransfer) ∧ awaits s order
  if ¬ (s.phase = .idle ∨ expected) then giveWayTo d order.targetRelease
  awaitTransfer

/-- The update that carries out `order`, with the file that is offered for its version, or the copy
in the archive if the order is for a rollback. -/
def plan? (d : Device σ) (t : Files.Tree) (order : Order) : Option Update :=
  let base (file : Path) : Update :=
    { Update.ofFile order.targetRelease file with announced := order.release.version }
  match order.offer? order.target with
  | some offer => some {
      base offer.file with
      received := offer.digest
      downloaded := offer.downloaded }
  | none =>
    if order.rollbackVersion.isSome then
      (d.archive.backup? t order.release.name order.target).map fun backup => {
        base backup.file with
        received := if backup.digest = "" then none else some backup.digest
        downloaded := false
        isBackup := true }
    else none

/-- Names the version of a rollback, and says whether its file is here. -/
def rollbackRemarks (version : String) (downloaded : Bool) : Remarks where
  rollbackVersion := some version
  versionList := some (.ofMembers [(version, .ofMembers [("downloaded", .bool downloaded)])])

/-- Asks the device manager to download the version of a rollback, and leaves the update. -/
def askForDownload (d : Device σ) (order : Order) (version : String) : Course σ Readiness := do
  note .warn "ROLLBACK-DOWNLOAD"
    s!"{order.release.text}: rollback version {version} is not available locally"
  let _ ← report d order.release InstallStatus.rollback (rollbackRemarks version false)
  modify fun s => { s with staged := none, awaited := none }
  enter .idle
  return .ended .rollback

/-- Compares the file with the digest it was sent with, if there is one. -/
def checkDigest (d : Device σ) (update : Update) : FileJob Unit := do
  if !d.profile.verifyChecksum then return
  let some expected := update.received | return
  let some wanted := Digest.parse? expected
    | throw (.delivery (.badDigest expected update.release.text))
  let found ← fileDigest update.file
  if found ≠ wanted then
    throw (.delivery (.mismatch update.file expected found.text))

def bringFile (d : Device σ) (update : Update) : Course σ Update := do
  progress update.release .transfer 0 false
  match ← ask "transfer_file" (d.agent.transferFile update) (.transferFile update) with
  | .ok outcome =>
    let update := if outcome.status = 0 then update.relocated outcome.newPath else update
    return { update with transferred := some outcome.status }
  | .error e =>
    note .error "TRANSFER" s!"{update.release.text}: {e.message}"
    return { update with transferred := some 1 }

def stageFile (d : Device σ) (order : Order) (update : Update) : Course σ Readiness := do
  enter .prepareInstall
  match ← ask "prepare_install" (d.agent.prepareInstall update) (.prepareInstall update) with
  | .ok outcome =>
    if outcome.status = .ready then
      enter .preInstall
      return .ready { update.relocated outcome.newPath with prepared := some .ready }
    else
      return .ended (← endFailed d order s!"prepare_install answered {outcome.status.text}")
  | .error e => return .ended (← endFailed d order s!"prepare_install: {e.message}")

/-- Stages the file if it is the one that was sent. -/
def checkAndStage (d : Device σ) (order : Order) (update : Update) : Course σ Readiness := do
  match ← perform (checkDigest d update) with
  | .error e => return .ended (← endFailed d order e.message)
  | .ok () => stageFile d order update

/-- Says to which version an order for a rollback leads, and whether its file was downloaded. -/
def announce (d : Device σ) (order : Order) (update : Update) : Course σ Unit := do
  if order.rollbackVersion.isSome then
    let remarks := rollbackRemarks update.version update.downloaded
    let _ ← report d order.release InstallStatus.rollback remarks

/-- Stages the file of `update` if the agent could bring it. -/
def stageBrought (d : Device σ) (order : Order) (update : Update) : Course σ Readiness := do
  let status := update.transferred.getD 0
  if status ≠ 0 then return .ended (← endFailed d order s!"transfer returned {status}")
  progress update.release .transfer 100 false
  checkAndStage d order update

/-- Makes `update` ready to be installed. The file of a backup is on the device already. -/
def makeReady (d : Device σ) (order : Order) (update : Update) : Course σ Readiness := do
  announce d order update
  if update.isBackup then checkAndStage d order update
  else stageBrought d order (← bringFile d update)

/-- Stages what `order` asks for. An update that ends here is reported. -/
def stage (d : Device σ) (order : Order) : Course σ Readiness := do
  match plan? d (← files) order, order.rollbackVersion with
  | some update, _ => makeReady d order update
  | none, some version => askForDownload d order version
  | none, none =>
    return .ended (← endFailed d order s!"no package file for version {order.target}")

end Course
end OtaAgent
