import OtaAgent.Config
import OtaAgent.Json.Basic

set_option autoImplicit false

namespace OtaAgent

structure Registration where
  url : String
  certDir : Path
  cacheDir : Path
  backupDir : Path
  delta : Bool
  deltaCap : String
  debug : Bool
  rebootSupport : Bool
  deriving DecidableEq, Repr

def Config.registration (c : Config) : Registration where
  url := c.bus.url
  certDir := c.bus.certDir
  cacheDir := c.paths.cacheDir
  backupDir := c.paths.backupDir
  delta := c.delta.enabled
  deltaCap := c.delta.cap
  debug := c.debug
  rebootSupport := c.rebootSupport

inductive Arrival
  | message (raw : String)
  | presence (connected : Bool)
  deriving DecidableEq, Repr

structure Bus where
  /-- All that arrives after the agent has joined, or why it cannot join. -/
  join : Registration → Except Error (List Arrival)
  /-- Why the envelope that is sent after so many others is refused, if it is. -/
  refusal : Nat → Option Error

namespace Bus

def inMemory (queue : List Arrival) (joined failing : Bool) : Bus where
  join := fun _ => if joined then .error (.bus .alreadyStarted) else .ok queue
  refusal := fun _ => if failing then some (.bus .refused) else none

end Bus
end OtaAgent
