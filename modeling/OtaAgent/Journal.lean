import OtaAgent.Timestamp

set_option autoImplicit false

namespace OtaAgent

inductive Level
  | info
  | warn
  | error
  | debug
  deriving DecidableEq, Repr

def Level.text : Level → String
  | info => "INFO"
  | warn => "WARN"
  | error => "ERROR"
  | debug => "DEBUG"

structure LogEntry where
  level : Level
  code : String
  message : String
  deriving DecidableEq, Repr

def LogEntry.line (e : LogEntry) (time : Timestamp) : String :=
  s!"{time.toSeconds} [{e.level.text}] [{e.code}] {e.message}\n"

end OtaAgent
