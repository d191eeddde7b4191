import OtaAgent.Bus
import OtaAgent.Journal.File
import OtaAgent.Course

set_option autoImplicit false

namespace OtaAgent

def Profile.ofConfig (c : Config) : Profile where
  handler := c.handler
  deltaCap := if c.delta.enabled then some c.delta.cap else none
  verifyChecksum := c.verifyChecksum

/-- What ends a run: the bus closes after all that arrives, or the program is told to stop, which
it does when it has handled all that has arrived. -/
inductive Ending
  | closed
  | shutdown
  deriving DecidableEq, Repr

def Ending.reason : Ending → String
  | closed => "bus closed"
  | shutdown => "shutdown requested"

structure Session (σ : Type) where
  device : Device σ
  registration : Registration

namespace Session

variable {σ : Type}

def ofConfig (agent : Agent σ) (c : Config) : Session σ where
  device := ⟨agent, ⟨c.paths.versionDir, c.paths.backupDir⟩, Profile.ofConfig c⟩
  registration := c.registration

def note (level : Level) (code message : String) : Unguarded σ Unit :=
  modify (·.noted ⟨level, code, message⟩)

/-- Lets the agent prepare itself. -/
def prepare (d : Device σ) : Unguarded σ (Except Error Unit) := do
  .ofAnswer (← Course.call d.agent.init .init)

/-- Offers a message to the agent, which may take it. -/
def offerMessage (d : Device σ) (kind raw : String) : Unguarded σ Bool := do
  (← Course.call (d.agent.onMessage kind raw) (.onMessage kind) : Except Panic Bool)

/-- Deals with a message that the agent has not taken. -/
def attend (d : Device σ) (kind raw : String) : Unguarded σ Unit := do
  match Event.parse raw with
  | .error e => note .warn "DISPATCH" s!"dropping malformed message: {e.message}"
  | .ok event =>
    match ← (Course.route d event).run with
    | .ok () => return
    | .error e => note .error "DISPATCH" s!"{kind}: {e.message}"

def receive (d : Device σ) : Arrival → Unguarded σ Unit
  | .presence connected => do
    let _ ← Course.onPresence d connected
  | .message raw => do
    let kind := (messageKind? raw).getD ""
    if ← offerMessage d kind raw then note .debug "DISPATCH" s!"{kind} handled by agent"
    else attend d kind raw

/-- After all entries but the first `written` ones have been added to the log, if one is kept. -/
def logged (book : Option Logbook) (written : Nat) (s : Station σ) : Station σ :=
  match book with
  | none => s
  | some book =>
    { s with site := { s.site with files := book.enter s.site.files s.journal written } }

/-- Adds the entries that `act` makes to the log, also those that it made before a panic. -/
def logging (book : Option Logbook) (act : Unguarded σ Unit) : Unguarded σ Unit := do
  let written := (← get).journal.length
  try act finally modify (logged book written)

def receiveAll (d : Device σ) (arrivals : List Arrival) (book : Option Logbook := none) :
    Unguarded σ Unit :=
  match arrivals with
  | [] => return
  | item :: rest => do
    logging book (receive d item)
    receiveAll d rest book

def noteJoined (session : Session σ) : Unguarded σ Unit :=
  note .info "AGENT-START"
    s!"{session.device.profile.handler} registered on {session.registration.url}"

def noteEnd (ending : Ending) : Unguarded σ Unit :=
  note .info "AGENT-STOP" ending.reason

/-- Deals with all that arrives after the bus has been joined. -/
def untilEnd (d : Device σ) (arrivals : List Arrival) (ending : Ending)
    (book : Option Logbook := none) : Unguarded σ Unit := do
  receiveAll d arrivals book
  logging book (noteEnd ending)

def serve (session : Session σ) (bus : Bus) (ending : Ending) (book : Option Logbook := none) :
    Unguarded σ (Except Error Unit) := do
  match ← prepare session.device with
  | .error e => return .error e
  | .ok () =>
    match bus.join session.registration with
    | .error e => return .error e
    | .ok arrivals =>
      logging book (noteJoined session)
      untilEnd session.device arrivals ending book
      return .ok ()

def writeSeal (log : LogFile) : Unguarded σ (Except Error Unit) := do
  let s ← get
  let (result, files) := log.finish.runOn s.site.files
  set { s with site := { s.site with files } }
  return result

/-- Serves until the end and keeps a log, which is sealed after a run that came to its end. -/
def run (session : Session σ) (bus : Bus) (ending : Ending) (book : Option Logbook) :
    Unguarded σ (Except Error Unit) := do
  match ← session.serve bus ending book, book with
  | .ok (), some book => writeSeal book.file
  | result, _ => return result

end Session
end OtaAgent
