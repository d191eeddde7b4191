import OtaAgent.Fault
import OtaAgent.Report

set_option autoImplicit false

namespace OtaAgent

/-- What was offered to the bus so far, and what it took. -/
structure Outbox where
  /-- Why the envelope that is offered after so many others is refused, if it is. -/
  refusal : Nat → Option Error
  offered : Nat
  sent : List Json

namespace Outbox

def ofRefusal (refusal : Nat → Option Error) : Outbox := ⟨refusal, 0, []⟩

def accepting : Outbox := ofRefusal fun _ => none

def send (o : Outbox) (v : Json) : Option Error × Outbox :=
  match o.refusal o.offered with
  | some e => (some e, { o with offered := o.offered + 1 })
  | none => (none, { o with offered := o.offered + 1, sent := o.sent ++ [v] })

def sentOf (o : Outbox) (kind : String) : List Json :=
  o.sent.filter fun v => (v.member? "type").bind Json.string? == some kind

def statuses (o : Outbox) : List String :=
  (o.sentOf Wire.updateStatus).filterMap fun v => do
    let package ← (← v.member? "body").member? "package"
    (← package.member? "status").string?

end Outbox
end OtaAgent
