import OtaAgent.Program
import Std.Async
import Std.Time

set_option autoImplicit false

namespace OtaAgent.Main

open Files Std.Async

abbrev State := Station Bench.Memory

def textOf (bytes : ByteArray) : String :=
  (Text.Utf8.decode? bytes.toList).getD ""

def environment : IO Environment := do
  let text := textOf (← IO.FS.readBinFile "/proc/self/environ")
  return (text.splitOn "\x00").map fun pair =>
    let cs := pair.toList
    (String.ofList (cs.takeWhile (· != '=')), String.ofList ((cs.dropWhile (· != '=')).drop 1))

def now : IO Timestamp := do
  let time ← Std.Time.Timestamp.now
  let nanos := time.toNanosecondsSinceUnixEpoch.val
  return ⟨nanos.fdiv 1000000000, (nanos.fmod 1000000000).toNat⟩

def locationOf (text : String) : Location := (text.splitOn "/").filter (· != "")

def textAt (at_ : Location) : String := "/" ++ String.intercalate "/" at_

/-- Adds what lies at `text`, and all that lies below it. -/
partial def picture (t : Tree) (text : String) : IO Tree := do
  let place := (← IO.currentDir) / text
  let location := locationOf place.toString
  if ← place.isDir then
    let t := (t.makeDirs ⟨place.toString⟩).2
    (← place.readDir).foldlM (fun t e => picture t e.path.toString) t
  else if ← place.pathExists then
    return t.put location (.file (← IO.FS.readBinFile place).toList)
  else return t

/-- All that lies at `paths`, and the directories above. -/
def pictures (paths : List Path) : IO Tree := do
  let cwd := (← IO.currentDir).toString
  let mut t := ((Tree.empty (locationOf cwd)).makeDirs ⟨cwd⟩).2
  for p in paths do
    let place := (← IO.currentDir) / p.text
    for above in (Path.mk place.toString).ancestry.reverse.dropLast do
      if ← ((← IO.currentDir) / above.text).isDir then t := (t.makeDirs above).2
    t ← picture t p.text
  return t

/-- Makes the files on disk differ from `before` as `after` does. -/
def settle (before after : Tree) : IO Unit := do
  for (at_, _) in before.nodes do
    if (after.node? at_).isNone then
      if (before.node? at_) = some .dir then
        try IO.FS.removeDirAll (textAt at_) catch _ => pure ()
      else try IO.FS.removeFile (textAt at_) catch _ => pure ()
  for (at_, node) in after.nodes do
    if before.node? at_ ≠ some node then
      match node with
      | .dir => IO.FS.createDirAll (textAt at_)
      | .file content =>
        IO.FS.createDirAll (textAt at_.dropLast)
        IO.FS.writeBinFile (textAt at_) ⟨content.toArray⟩

/-- Where an agent's files lie when `item` arrives. -/
def pathsFor (session : Session Bench.Memory) (s : State) (item : List Arrival) : List Path :=
  let offered := item.flatMap fun
    | .message raw =>
      match Event.parse raw with
      | .ok (.prepare order) => order.offers.map (·.file)
      | .ok (.install order) => order.offers.map (·.file)
      | _ => []
    | .presence _ => []
  let staged := (s.staged.map (·.file)).toList
  let archive := session.device.archive
  [session.registration.cacheDir, archive.versionDir, archive.backupDir] ++ staged ++ offered

def step {α : Type} (paths : List Path) (work : State → α × State) (s : State) :
    IO (α × State) := do
  let before ← pictures paths
  let (result, after) := work { s with site := { s.site with files := before } }
  settle before after.site.files
  return (result, after)

/-- Does `act` on the files as they are now. The entries that it makes are put in the log and bear
the time at which it began. -/
def perform {α : Type} (log : LogFile) (paths : List Path)
    (act : Option Logbook → Unguarded Bench.Memory α) (s : State) :
    IO (Except Panic α × State) := do
  let time ← now
  step (log.path :: paths) (act (some ⟨log, fun _ => time⟩)).run.run s

def connect (e : Endpoint) : IO (Option TCP.Socket.Client) := do
  try
    let addresses ← (DNS.getAddrInfo e.host (toString e.port)).block
    let client ← TCP.Socket.Client.mk
    let port := e.port.toUInt16
    match addresses.toList with
    | .v4 addr :: _ => (client.connect (.v4 { addr, port })).block
    | .v6 addr :: _ => (client.connect (.v6 { addr, port })).block
    | [] => return none
    return some client
  catch _ => return none

/-- Deals with the lines that have arrived, one after the other. -/
def receiveLines (client : TCP.Socket.Client) (service : Program.Service) :
    List String → State → IO (Except Panic Unit × State)
  | [], s => return (.ok (), s)
  | line :: lines, s => do
    if Link.isBlank line then receiveLines client service lines s
    else
      let item := Link.arrivalOf line
      let (result, after) ← perform service.log (pathsFor service.session s [item])
        (Session.logging · (Session.receive service.session.device item)) s
      for v in after.outbox.sent.drop s.outbox.sent.length do
        (client.send ⟨(Link.frame v).toArray⟩).block
      match result with
      | .ok () => receiveLines client service lines after
      | .error p => return (.error p, after)

/-- Deals with all that arrives until the peer closes its side or sends what is no text. -/
partial def listen (client : TCP.Socket.Client) (service : Program.Service) (buffer : Bytes)
    (s : State) : IO (Except Panic Unit × State) := do
  match ← (client.recv? 65536).block with
  | none => receiveLines client service (Link.texts (if buffer = [] then [] else [buffer])) s
  | some chunk =>
    let (ended, rest) := Link.cut (buffer ++ chunk.toList)
    let texts := Link.texts (ended.map Link.dropReturn)
    match ← receiveLines client service texts s with
    | (.error p, s) => return (.error p, s)
    | (.ok (), s) =>
      if texts.length < ended.length then return (.ok (), s)
      else listen client service rest s

/-- Joins the bus, serves until it closes and seals the log. -/
def serve (service : Program.Service) : IO (Except Panic (Except Error Unit)) := do
  let session := service.session
  let url := session.registration.url
  match ← perform service.log (pathsFor session service.station [])
    (fun _ => Session.prepare session.device) service.station with
  | (.error p, _) => return .error p
  | (.ok (.error e), _) => return .ok (.error e)
  | (.ok (.ok ()), s) =>
    match Link.address url with
    | .error fault => return .ok (.error (.config fault))
    | .ok address =>
      let some client ← connect (Endpoint.ofUrl url)
        | return .ok (.error (.bus (.notConnected address .unreachable)))
      let (_, s) ← perform service.log [] (Session.logging · (Session.noteJoined session)) s
      match ← listen client service [] s with
      | (.error p, _) => return .error p
      | (.ok (), s) =>
        let (_, s) ← perform service.log [] (Session.logging · (Session.noteEnd .closed)) s
        let (result, _) ← perform service.log [] (fun _ => Session.writeSeal service.log) s
        return result

def complain (e : Error) : IO UInt32 := do
  (← IO.getStderr).putStrLn (Program.complaint e)
  return e.exitCode.toUInt32

def runSetup (w : Program.Surroundings) (setup : Program.Setup) : IO UInt32 := do
  let before ← pictures [setup.logPath]
  let (opened, files) := setup.launch { w with files := before } (Link.bus w.connect)
  settle before files
  match opened with
  | .error e => complain e
  | .ok service =>
    match ← serve service with
    | .ok (.ok ()) => return 0
    | .ok (.error e) => complain e
    | .error _ => return Program.panicCode.toUInt32

end OtaAgent.Main

open OtaAgent in
def main (words : List String) : IO UInt32 := do
  match Flags.parse words with
  | .error refusal =>
    if refusal = .version then IO.println s!"ua-core {Program.version}"
    return refusal.exitCode.toUInt32
  | .ok flags =>
    let env ← Main.environment
    let time ← Main.now
    let files ← Main.pictures [flags.config.getD (Config.defaultPath env)]
    let w : Program.Surroundings := {
      env, files
      clock := fun _ => time
      outside := .nothing
      connect := fun _ => none
      ending := .closed }
    match Program.setUp w flags with
    | .error fault => Main.complain (.config fault)
    | .ok setup => Main.runSetup w setup
