import OtaAgent.Course.Basic

set_option autoImplicit false

namespace OtaAgent.Course

variable {σ : Type}

def giveWayTo (d : Device σ) (incoming : Release) : Course σ Unit := do
  let s ← get
  if s.phase = .idle then return
  let dropped := (s.staged.map (·.release)).or s.awaited
  set { s with staged := none, awaited := none }
  if let some dropped := dropped then
    note .warn "SUPERSEDED" s!"{dropped.text} superseded by {incoming.text}"
    let _ ← report d dropped InstallStatus.aborted
  enter .aborted
  enter .idle

/-- The version to try after `order` has failed: the first of its rollback versions that is not the
one that failed and whose copy is there. -/
def nextFallback? (d : Device σ) (t : Files.Tree) (order : Order) : Option String :=
  order.rollbackVersions.find? fun version =>
    version != order.target &&
      (match d.archive.backup? t order.release.name version with
        | some backup => t.present backup.file
        | none => false)

/-- Points the device manager at the next version to try, or says that none is left. -/
def failureRemarks (d : Device σ) (t : Files.Tree) (order : Order) : Remarks :=
  if order.rollbackVersions.isEmpty then {}
  else
    let next := nextFallback? d t order
    { terminalFailure := next.isNone
      rollbackVersion := next
      rollbackVersions := order.rollbackVersions }

def endFailed (d : Device σ) (order : Order) (reason : String) : Course σ InstallStatus := do
  enter .failed
  modify fun s => { s with staged := none }
  note .error "UPDATE-FAILED" s!"{order.release.text}: {reason}"
  let _ ← report d order.release InstallStatus.failed (failureRemarks d (← files) order)
  return .failed

def endAborted (d : Device σ) (order : Order) : Course σ InstallStatus := do
  enter .aborted
  modify fun s => { s with staged := none }
  note .warn "UPDATE-ABORTED" s!"{order.release.text} aborted"
  let _ ← report d order.release InstallStatus.aborted
  return .aborted

end OtaAgent.Course
