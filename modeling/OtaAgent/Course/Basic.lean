import OtaAgent.Hook
import OtaAgent.Journal
import OtaAgent.Outbox
import OtaAgent.Phase

set_option autoImplicit false

namespace OtaAgent

structure Profile where
  handler : String
  /-- Named in query replies, if deltas are supported. -/
  deltaCap : Option String
  verifyChecksum : Bool
  deriving DecidableEq, Repr

structure Device (σ : Type) where
  agent : Agent σ
  archive : Archive
  profile : Profile

/-- Where the course stands, and all that was done on it. -/
structure Station (σ : Type) where
  site : Site σ
  outbox : Outbox
  journal : List LogEntry
  calls : List Call
  phase : Phase
  staged : Option Update
  /-- The release whose download was agreed to or postponed. -/
  awaited : Option Release

namespace Station

variable {σ : Type}

def fresh (own : σ) (files : Files.Tree) (outbox : Outbox) : Station σ where
  site := ⟨own, files⟩
  outbox
  journal := []
  calls := []
  phase := .idle
  staged := none
  awaited := none

def noted (s : Station σ) (entry : LogEntry) : Station σ :=
  { s with journal := s.journal ++ [entry] }

/-- After a hook has been called, which leaves the site as `site`. -/
def called (s : Station σ) (hook : HookCall) (site : Site σ) : Station σ :=
  { s with site, calls := s.calls ++ [⟨hook, s.site.files⟩] }

end Station

/-- A stretch of the course, which may end in an error; what was done until then stays done. -/
abbrev Course (σ α : Type) := ExceptT Error (StateM (Station σ)) α

/-- An act that nothing guards: a panic in it unwinds out of all that it is part of. -/
abbrev Unguarded (σ α : Type) := ExceptT Panic (StateM (Station σ)) α

namespace Unguarded

variable {σ α β : Type}

/-- An error that a hook gives is a result like any other; a panic is let through. -/
def ofAnswer : Answer α → Unguarded σ (Except Error α)
  | .ok a => return .ok a
  | .error (.error e) => return .error e
  | .error (.panic p) => throw p

/-- What comes of an act that sets out from `s`. -/
def runOn (c : Unguarded σ α) (s : Station σ) : Except Panic α × Station σ := c.run.run s

theorem runOn_bind (c : Unguarded σ α) (f : α → Unguarded σ β) (s : Station σ) :
    runOn (c >>= f) s = match runOn c s with
      | (.ok a, next) => runOn (f a) next
      | (.error p, next) => (.error p, next) := by
  unfold runOn ExceptT.run StateT.run
  simp only [bind, ExceptT.bind, ExceptT.mk, StateT.bind, ExceptT.bindCont]
  cases c s with
  | mk result next => cases result <;> rfl

end Unguarded

namespace Course

variable {σ α β : Type}

def runOn (c : Course σ α) (s : Station σ) : Except Error α × Station σ := c.run.run s

theorem runOn_bind (c : Course σ α) (f : α → Course σ β) (s : Station σ) :
    runOn (c >>= f) s = match runOn c s with
      | (.ok a, next) => runOn (f a) next
      | (.error e, next) => (.error e, next) := by
  unfold runOn ExceptT.run StateT.run
  simp only [bind, ExceptT.bind, ExceptT.mk, StateT.bind, ExceptT.bindCont]
  cases c s with
  | mk result next => cases result <;> rfl

def note (level : Level) (code message : String) : Course σ Unit :=
  modify (·.noted ⟨level, code, message⟩)

/-- Offers an envelope to the bus and says whether it took it. -/
def send (v : Json) : Course σ Bool := do
  let s ← get
  let (refused, outbox) := s.outbox.send v
  set { s with outbox }
  match refused with
  | none => return true
  | some e =>
    note .warn "DIAG-SEND" s!"dropping {Report.kind v} envelope: {e.message}"
    return false

def call {m : Type → Type} [Monad m] [MonadStateOf (Station σ) m] (hook : Deed σ α)
    (trace : α → HookCall) : m α := do
  let s ← get
  let (result, site) := hook s.site
  set (s.called (trace result) site)
  return result

/-- Calls a hook; a panic is an error of the hook. -/
def ask (name : String) (hook : Hook σ α) (trace : Answer α → HookCall) :
    Course σ (Except Error α) :=
  return (← call hook trace).mapError (·.toError name)

def perform (job : FileJob α) : Course σ (Except Error α) := do
  let s ← get
  let (result, files) := job.runOn s.site.files
  set { s with site := { s.site with files } }
  return result

def files : Course σ Files.Tree := return (← get).site.files

def report (d : Device σ) (release : Release) (status : Status) (remarks : Remarks := {}) :
    Course σ Bool := do
  note .info "UPDATE-STATUS" s!"{release.text} -> {status.text}"
  send (Report.status d.profile.handler release status remarks)

/-- Reports progress in percent, of which there are at most a hundred. -/
def reportProgress (release : Release) (stage : Stage) (percent : Nat) (indeterminate : Bool) :
    Course σ (Except Error Bool) := do
  if 100 < percent then return .error (.runtime (.progressOutOfRange percent release.text))
  return .ok (← send (Report.progress release stage percent indeterminate))

/-- Reports progress; one that is out of range is noted instead. -/
def progress (release : Release) (stage : Stage) (percent : Nat) (indeterminate : Bool) :
    Course σ Unit := do
  match ← reportProgress release stage percent indeterminate with
  | .ok _ => return
  | .error e => note .warn "PROGRESS" e.message

def enter (target : Phase) : Course σ Unit := do
  let s ← get
  match s.phase.enter target with
  | .error e => throw e
  | .ok next =>
    note .debug "STATE" s!"{s.phase.text} -> {next.text}"
    modify fun s => { s with phase := next }

def leaveFinished : Course σ Unit := do
  if (← get).phase.isTerminal then
    enter .idle
    modify fun s => { s with staged := none, awaited := none }

end Course
end OtaAgent
