import OtaAgent.Files.Tree

set_option autoImplicit false

namespace OtaAgent

structure Secret where
  value : String
  deriving DecidableEq

def Secret.shown (_ : Secret) : String := "Secret(<redacted>)"

/-- A program to be started, and the password that is put into its environment. -/
structure Command where
  program : String
  args : List String
  password : Option Secret
  deriving DecidableEq

/-- Why a command cannot be started, whatever programs there are. -/
def Command.fault? (c : Command) : Option IoFault :=
  let words := c.program :: c.args ++ (c.password.map (·.value)).toList
  if words.any (·.toList.contains '\x00') then some .nulInCommand
  else if !c.program.toList.contains '/' && Files.maxName < c.program.utf8ByteSize then
    some .nameTooLong
  else none

inductive Launch
  | missing
  | refused (cause : IoFault)
  /-- It ran. One that was killed has no exit code. -/
  | ended (code : Option Int) (stderr : String)
  deriving DecidableEq, Repr

structure Request where
  url : String
  /-- In seconds. -/
  timeout : Nat
  deriving DecidableEq, Repr

inductive Exchange
  | failed
  /-- An answer with its status and its body, piece by piece; the body may break off. -/
  | answered (status : Nat) (body : List Bytes) (whole : Bool)
  deriving DecidableEq, Repr

/-- What was done beyond the device, first to last. -/
structure Traffic where
  started : List Command
  requests : List Request
  deriving DecidableEq

def Traffic.none : Traffic := ⟨[], []⟩

/-- Everything beyond the device. What it does may depend on what was done before. -/
structure Outside where
  launch : Traffic → Command → Files.Tree → Launch × Files.Tree
  exchange : Traffic → Request → Exchange

def Outside.nothing : Outside := ⟨fun _ _ t => (.missing, t), fun _ _ => .failed⟩

end OtaAgent
