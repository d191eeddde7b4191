import OtaAgent.Fault
import OtaAgent.Update
import OtaAgent.Wire

set_option autoImplicit false

namespace OtaAgent

namespace Wire

/-- The release that a message of type `kind` is about. -/
def Package.release (p : Package) (kind : String) : Except Error Release :=
  match p.version with
  | some version => .ok ⟨p.name, version⟩
  | none => .error (.format (.noVersion kind p.name))

/-- The files offered, in the order of their versions. Entries without a file offer none. -/
def Package.offers (p : Package) : List Offer :=
  p.versions.filterMap fun (version, entry) =>
    entry.file.map fun file => ⟨version, ⟨file⟩, entry.digest, entry.downloaded⟩

def Package.order (p : Package) (kind : String) : Except Error Order := do
  return {
    release := ← p.release kind
    handler := p.handler
    offers := p.offers
    rollbackVersion := p.rollbackVersion
    rollbackVersions := p.rollbackVersions }

end Wire

inductive Event
  | query (handler package : String) (replyId : Option String)
  | offered (handler : String) (release : Release)
  | prepare (order : Order)
  | install (order : Order)
  | confirmed (handler : String) (release : Release)
  | downloading (handler : String) (release : Release) (downloadedBytes totalBytes : Nat)
  | unhandled (kind : String)
  deriving DecidableEq, Repr

namespace Event

def handler? : Event → Option String
  | query handler _ _ => some handler
  | offered handler _ => some handler
  | prepare order => some order.handler
  | install order => some order.handler
  | confirmed handler _ => some handler
  | downloading handler _ _ _ => some handler
  | unhandled _ => none

def ofPackage (e : Wire.Envelope) (p : Wire.Package) : Except Error Event :=
  if e.kind = Wire.queryPackage then .ok (.query p.handler p.name e.replyId)
  else if e.kind = Wire.readyDownload then (p.release e.kind).map (.offered p.handler)
  else if e.kind = Wire.prepareUpdate then (p.order e.kind).map .prepare
  else if e.kind = Wire.readyUpdate then (p.order e.kind).map .install
  else if e.kind = Wire.confirmUpdate then (p.release e.kind).map (.confirmed p.handler)
  else
    (p.release e.kind).map fun release =>
      .downloading p.handler release (e.body.downloadedBytes.getD 0) (e.body.totalBytes.getD 0)

def ofEnvelope (e : Wire.Envelope) : Except Error Event :=
  if e.kind ∈ Wire.handled then
    match e.body.package with
    | some p => ofPackage e p
    | none => .error (.format (.noPackage e.kind))
  else .ok (.unhandled e.kind)

def parse (raw : String) : Except Error Event :=
  match (Json.Doc.parse? raw).bind Wire.Envelope.ofDoc? with
  | some e => ofEnvelope e
  | none => .error (.format .invalidJson)

end Event

/-- The type field of a message, as far as it is a value. -/
def messageKind? (raw : String) : Option String :=
  (Json.parse? raw).bind fun v => (v.member? "type").bind Json.string?

end OtaAgent
