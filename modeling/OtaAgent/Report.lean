import OtaAgent.Json.Basic
import OtaAgent.Update
import OtaAgent.Timestamp
import OtaAgent.Wire

set_option autoImplicit false

namespace OtaAgent

inductive Severity
  | event
  | info
  | warn
  | error
  | severe
  deriving DecidableEq, Repr

namespace Severity

def all : List Severity := [event, info, warn, error, severe]

def text : Severity → String
  | event => "EVENT"
  | info => "INFO"
  | warn => "WARN"
  | error => "ERROR"
  | severe => "SEVERE"

def ofText? (s : String) : Option Severity := all.find? (·.text == s)

end Severity

inductive Stage
  | transfer
  | install
  deriving DecidableEq, Repr

def Stage.text : Stage → String
  | transfer => "US_TRANSFER"
  | install => "US_INSTALL"

/-- What a status report may say besides the status. -/
structure Remarks where
  rollbackVersion : Option String := none
  rollbackVersions : List String := []
  terminalFailure : Bool := false
  versionList : Option Json := none

namespace Report

def envelope (kind : String) (body : List (String × Json)) : Json :=
  .ofMembers [("type", .string kind), ("body", .ofMembers body)]

def log (handler : String) (severity : Severity) (time : Timestamp) (compoundable : Bool)
    (message : Json) : Json :=
  envelope Wire.logReport [
    ("type", .string handler),
    ("level", .string severity.text),
    ("timestamp", .string time.toMillis),
    ("compoundable", .bool compoundable),
    ("message", message)]

/-- A member that is there only if it has a value. -/
def given (name : String) : Option Json → List (String × Json)
  | some v => [(name, v)]
  | none => []

def status (handler : String) (release : Release) (s : Status) (remarks : Remarks) : Json :=
  envelope Wire.updateStatus [("package", .ofMembers (
    [("name", .string release.name), ("type", .string handler),
      ("version", .string release.version), ("status", .string s.text)] ++
    given "rollback-version" (remarks.rollbackVersion.map .string) ++
    given "rollback-versions" (if remarks.rollbackVersions.isEmpty then none
      else some (.strings remarks.rollbackVersions)) ++
    given "terminal-failure" (if remarks.terminalFailure then some (.bool true) else none) ++
    given "version-list" remarks.versionList))]

def progress (release : Release) (stage : Stage) (percent : Nat) (indeterminate : Bool) :
    Json :=
  envelope Wire.updateReport [
    ("package", .ofMembers [("name", .string release.name), ("version", .string release.version)]),
    ("progress", .ofInt percent),
    ("indeterminate", .bool indeterminate),
    ("stage", .string stage.text)]

def queryReply (replyTo : Option String) (package : Json) : Json :=
  .ofMembers ([("type", .string Wire.queryPackage), ("body", .ofMembers [("package", package)])] ++
    given "reply-to" (replyTo.map .string))

def kind (v : Json) : String := ((v.member? "type").bind Json.string?).getD "unknown"

end Report

end OtaAgent
