import OtaAgent.Course.Installing
import OtaAgent.Course.Staging
import OtaAgent.Event

set_option autoImplicit false

namespace OtaAgent.Course

variable {σ : Type}

def askConsent (d : Device σ) (release : Release) : Course σ DownloadStatus := do
  match ← ask "confirm_download" (d.agent.confirmDownload release) (.confirmDownload release) with
  | .ok status => return status
  | .error e =>
    note .error "CONFIRM-DOWNLOAD" s!"{release.text}: {e.message}"
    return .denied

/-- Makes the transition that an answer to an offer stands for. -/
def abideBy (release : Release) : DownloadStatus → Course σ Unit
  | .consent => do
    enter .awaitingTransfer
    modify fun s => { s with awaited := some release }
  | .denied => do
    enter .idle
    modify fun s => { s with awaited := none }
  | .postponed => modify fun s => { s with awaited := some release }

def consider (d : Device σ) (release : Release) : Course σ DownloadStatus := do
  enter .confirmDownload
  let status ← askConsent d release
  abideBy release status
  note .info "READY-DOWNLOAD" s!"{release.text}: {status.text}"
  let _ ← report d release status
  return status

/-- A download is offered: asks about it, unless it has been agreed to. -/
def onOffer (d : Device σ) (release : Release) : Course σ DownloadStatus := do
  leaveFinished
  let s ← get
  if s.phase = .awaitingTransfer ∧ s.awaited = some release then
    note .info "READY-DOWNLOAD" s!"{release.text} already consented"
    let _ ← report d release DownloadStatus.consent
    return .consent
  if ¬ (s.phase = .idle ∨ s.phase = .confirmDownload) then giveWayTo d release
  consider d release

/-- An update is announced: stages it without installing it. -/
def onPrepare (d : Device σ) (order : Order) : Course σ InstallStatus := do
  leaveFinished
  if (stagedFor? (← get) order).isSome then
    note .info "PREPARE-UPDATE" s!"{order.release.text} already prepared"
    let _ ← report d order.release InstallStatus.ready
    return .ready
  takeUp d order
  match ← stage d order with
  | .ended status => return status
  | .ready update =>
    note .info "PREPARE-UPDATE" s!"{update.release.text} staged at {update.file.text}"
    modify fun s => { s with staged := some update }
    let _ ← report d order.release InstallStatus.ready
    return .ready

/-- An update is to be installed; it is staged first unless it has been. -/
def onInstall (d : Device σ) (order : Order) : Course σ InstallStatus := do
  leaveFinished
  let previous := d.archive.current? (← files) order.release.name
  match stagedFor? (← get) order with
  | some update =>
    modify fun s => { s with staged := none }
    checkAndInstall d order update previous
  | none =>
    takeUp d order
    match ← stage d order with
    | .ended status => return status
    | .ready update => checkAndInstall d order update previous

def packageReport (d : Device σ) (t : Files.Tree) (package : String) (version : Option String) :
    Json :=
  let archived := match d.archive.get? t package with
    | none => []
    | some history => [
      ("version-list", Json.ofMembers (history.backups.map fun (version, backup) =>
        (version, Json.ofMembers [("file", .string backup.file.text),
          ("sha-256", .string backup.digest), ("downloaded", .bool backup.downloaded)]))),
      ("rollback-versions", Json.strings history.backups.keys)]
  .ofMembers ([("type", .string d.profile.handler), ("name", .string package),
    ("version", Json.ofOption .string version)] ++
    Report.given "delta-cap" (d.profile.deltaCap.map .string) ++ archived)

/-- The device manager asks for the version of a package. There is no reply if the agent has no
answer. -/
def onQuery (d : Device σ) (package : String) (replyId : Option String) :
    Course σ (Option Json) := do
  match ← ask "get_version" (d.agent.getVersion d.archive package) (.getVersion package) with
  | .error e =>
    note .error "QUERY-PACKAGE" s!"{package}: {e.message}"
    return none
  | .ok version =>
    let reply := packageReport d (← files) package version
    note .info "QUERY-PACKAGE" (package ++ " reports " ++ version.getD "no version")
    let _ ← send (Report.queryReply replyId reply)
    return some reply

def onConfirmed (release : Release) : Course σ Unit :=
  note .info "CONFIRM-UPDATE" s!"{release.text} confirmed by device manager"

def onDownloading (release : Release) (downloadedBytes totalBytes : Nat) : Course σ Unit :=
  note .debug "DOWNLOAD-REPORT" s!"{release.text}: {downloadedBytes}/{totalBytes} bytes"

def onPresence (d : Device σ) (connected : Bool) : Unguarded σ Int := do
  let advice ← (← call (d.agent.presence connected) (.presence connected) : Except Panic Int)
  modify (·.noted ⟨.info, "DMC-PRESENCE",
    if connected then "device manager connected" else "device manager disconnected"⟩)
  return advice

/-- Deals with an event that is addressed to this device. -/
def deal (d : Device σ) : Event → Course σ Unit
  | .query _ package replyId => do let _ ← onQuery d package replyId
  | .offered _ release => do let _ ← onOffer d release
  | .prepare order => do let _ ← onPrepare d order
  | .install order => do let _ ← onInstall d order
  | .confirmed _ release => onConfirmed release
  | .downloading _ release downloadedBytes totalBytes =>
    onDownloading release downloadedBytes totalBytes
  | .unhandled kind => note .debug "ROUTING" s!"nothing to do for {kind}"

/-- Deals with an event; those for other handlers are passed over. -/
def route (d : Device σ) (e : Event) : Course σ Unit := do
  match e.handler? with
  | some handler =>
    if handler ≠ d.profile.handler then
      note .debug "ROUTING" s!"ignoring event for node type {handler}"
    else deal d e
  | none => deal d e

end OtaAgent.Course
