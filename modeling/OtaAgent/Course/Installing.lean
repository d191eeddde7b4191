import OtaAgent.Course.Ending

set_option autoImplicit false

namespace OtaAgent.Course

variable {σ : Type}

/-- What the install of `update` leaves to be recorded, with the digest of its file as it is in
`t`. -/
def receiptOf (t : Files.Tree) (update : Update) : Receipt where
  package := update.name
  version := update.version
  received := update.received
  computed := ((fileDigest update.file).runOn t).1.toOption.map (·.text)
  downloaded := update.downloaded
  file := update.file

def passOver (level : Level) (code : String) (release : Release) :
    Except Error Unit → Course σ Unit
  | .ok () => return
  | .error e => note level code s!"{release.text}: {e.message}"

/-- Records the install and ends the update as completed, whatever the agent makes of either. -/
def endCompleted (d : Device σ) (order : Order) (update : Update) : Course σ InstallStatus := do
  let receipt := receiptOf (← files) update
  let recorded ← ask "set_version" (d.agent.setVersion d.archive receipt) (.setVersion receipt)
  passOver .error "SET-VERSION" update.release recorded
  enter .postInstall
  let _ ← report d order.release InstallStatus.completed
  let told ← ask "post_install" (d.agent.postInstall update.name) (.postInstall update.name)
  passOver .warn "POST-INSTALL" update.release told
  enter .completed
  note .info "UPDATE-COMPLETED" s!"{update.release.text} installed"
  return .completed

/-- The version to go back to when the install of `update` asks for a rollback: the one that the
agent named, the one that the order named, the first rollback version in the archive, or the one
that was installed before; the latter three only if they are not the one that failed. -/
def fallback? (d : Device σ) (t : Files.Tree) (order : Order) (update : Update)
    (previous : Option String) : Option String :=
  let isOther := fun version => version != update.version
  ((update.fallback.or (order.rollbackVersion.filter isOther)).or
    (order.rollbackVersions.find? fun version =>
      isOther version && (d.archive.backup? t update.name version).isSome)).or
    (previous.filter isOther)

def fallBack (d : Device σ) (order : Order) (update : Update) (previous : Option String) :
    Course σ InstallStatus := do
  match fallback? d (← files) order update previous with
  | none => endFailed d order "install requested a rollback without a known target"
  | some version =>
    match ← perform (d.archive.reinstate update.name version) with
    | .error e => endFailed d order s!"rollback to {version} failed: {e.message}"
    | .ok _ =>
      enter .rolledBack
      note .warn "UPDATE-ROLLBACK" s!"{update.release.text} rolled back to {version}"
      let _ ← report d order.release InstallStatus.rollback
        { rollbackVersion := some version, rollbackVersions := order.rollbackVersions }
      return .rollback

/-- What a step of the install came to; one that gave no answer has failed. -/
def verdict (code : String) (release : Release) :
    Except Error InstallStatus → Course σ InstallStatus
  | .ok status => return status
  | .error e => do
    note .error code s!"{release.text}: {e.message}"
    return .failed

/-- Installs an update that is staged and checked. What follows goes by the update as the agent
leaves it. -/
def install (d : Device σ) (order : Order) (update : Update) (previous : Option String) :
    Course σ InstallStatus := do
  enter .installing
  let _ ← report d order.release InstallStatus.inProgress
  progress update.release .install 0 true
  let installed ← call (d.agent.install update) (.install update)
  let answer := installed.answer.mapError (·.toError "install")
  let status ← verdict "INSTALL" installed.update.release answer
  let update := { installed.update with installed := some status }
  match status with
  | .completed => endCompleted d order update
  | .rollback => fallBack d order update previous
  | .aborted => endAborted d order
  | status => endFailed d order s!"install answered {status.text}"

/-- Installs an update that is staged, if the agent's check lets it. `previous` is the version that
was installed until now. -/
def checkAndInstall (d : Device σ) (order : Order) (update : Update) (previous : Option String) :
    Course σ InstallStatus := do
  let answer ← ask "pre_install" (d.agent.preInstall update) (.preInstall update)
  match ← verdict "PRE-INSTALL" update.release answer with
  | .inProgress => install d order update previous
  | .aborted => endAborted d order
  | status => endFailed d order s!"pre_install answered {status.text}"

end OtaAgent.Course
