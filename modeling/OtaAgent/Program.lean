import OtaAgent.Flags.CommandLine
import OtaAgent.Link
import OtaAgent.Bench
import OtaAgent.Session

set_option autoImplicit false

namespace OtaAgent

namespace Program

def version : String := "0.4.0"

structure Surroundings where
  env : Environment
  files : Files.Tree
  /-- The time at which the log entry is made that comes after so many others. -/
  clock : Nat → Timestamp
  outside : Outside
  /-- The bytes that come from an address, if a peer answers there. -/
  connect : String → Option Bytes
  ending : Ending

structure Outcome where
  exitCode : Nat
  complaint : Option String
  files : Files.Tree
  sent : List Json

/-- The exit code after a panic that unwound out of the program. -/
def panicCode : Nat := 101

def complaint (e : Error) : String := "[ua-core] " ++ e.message

def failed (e : Error) (files : Files.Tree) : Outcome := ⟨e.exitCode, some (complaint e), files, []⟩

structure Setup where
  config : Config
  bench : Bench
  logPath : Path

def logPath (f : Flags) (c : Config) (start : Timestamp) : Path :=
  f.log.getD (c.paths.logDir.join ("ua_" ++ start.toStamp ++ ".log"))

def setUp (w : Surroundings) (f : Flags) : Except ConfigFault Setup := do
  let config := f.overlay (← Config.loadFrom w.env w.files f.config)
  config.validate
  let bench : Bench := {
    mode := f.mode.getD .success
    rollbackVersion := f.rollbackVersion
    download := f.download.getD .consent
    cacheDir := config.paths.cacheDir
    delivery := ← Delivery.ofConfig w.env config.transfer }
  bench.validate
  return ⟨config, bench, logPath f config (w.clock 0)⟩

def initEntry (s : Setup) : LogEntry where
  level := .info
  code := "INIT"
  message := s!"ua-core {version} serving {s.config.handler} in {s.bench.mode.title} mode"

structure Service where
  session : Session Bench.Memory
  log : LogFile
  station : Station Bench.Memory

def Setup.launch (s : Setup) (w : Surroundings) (bus : Bus) : Except Error Service × Files.Tree :=
  match LogFile.openIn w.files s.logPath with
  | (.error e, files) => (.error e, files)
  | (.ok log, files) =>
    let entry := initEntry s
    let files := log.write files [entry.line (w.clock 0)]
    let station := Station.fresh Bench.Memory.fresh files (.ofRefusal bus.refusal)
    (.ok {
      session := Session.ofConfig (s.bench.agent w.outside) s.config
      log
      station := { station with journal := [entry] } }, files)

def Outcome.ofRun (result : Except Panic (Except Error Unit)) (s : Station Bench.Memory) :
    Outcome :=
  match result with
  | .ok (.ok ()) => ⟨0, none, s.site.files, s.outbox.sent⟩
  | .ok (.error e) => ⟨e.exitCode, some (Program.complaint e), s.site.files, s.outbox.sent⟩
  | .error _ => ⟨panicCode, none, s.site.files, s.outbox.sent⟩

def run (w : Surroundings) (words : List String) : Outcome :=
  match Flags.parse words with
  | .error refusal => ⟨refusal.exitCode, none, w.files, []⟩
  | .ok flags =>
    match setUp w flags with
    | .error fault => failed (.config fault) w.files
    | .ok setup =>
      let bus := Link.bus w.connect
      match setup.launch w bus with
      | (.error e, files) => failed e files
      | (.ok service, _) =>
        let run := service.session.run bus w.ending (some ⟨service.log, w.clock⟩)
        let (result, after) := run.run.run service.station
        .ofRun result after

end Program
end OtaAgent
