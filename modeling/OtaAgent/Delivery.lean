import OtaAgent.Hook
import OtaAgent.Config
import OtaAgent.Text.Segment
import OtaAgent.Delivery.Outside
import OtaAgent.Delivery.Reason

set_option autoImplicit false

namespace OtaAgent

namespace Delivery

/-- Files on a staging host lie under the same path as here. -/
structure Host where
  host : String
  user : String
  identityFile : Option Path
  password : Option Secret
  program : String
  deriving DecidableEq

structure Server where
  /-- Without slashes at its end. -/
  baseUrl : String
  timeout : Nat
  deriving DecidableEq, Repr

end Delivery

inductive Delivery
  | onDevice
  | copied (host : Delivery.Host)
  | fetched (server : Delivery.Server)
  deriving DecidableEq

namespace Delivery

open Files

/-- The seconds that a request may take if nothing else is said. -/
def defaultTimeout : Nat := 300

def dropSlashes (cs : List Char) : List Char := (cs.reverse.dropWhile (· == '/')).reverse

def Server.ofBase (baseUrl : String) (timeout : Nat) : Server :=
  ⟨String.ofList (dropSlashes baseUrl.toList), timeout⟩

def Host.ofUser (host user : String) : Host := ⟨host, user, none, none, "scp"⟩

def password? (env : Environment) : Option String → Except ConfigFault (Option Secret)
  | none => .ok none
  | some var =>
    match env.get? var with
    | some value => .ok (some ⟨value⟩)
    | none => .error (.passwordUnset var)

/-- A server comes first. A staging host needs a user as well. -/
def ofConfig (env : Environment) (c : Config.Delivery) : Except ConfigFault Delivery :=
  match c.httpBaseUrl, c.host, c.user with
  | some baseUrl, _, _ => .ok (.fetched (.ofBase baseUrl (c.timeout.getD defaultTimeout)))
  | none, some host, some user => do
    let password ← password? env c.passwordEnv
    return .copied { Host.ofUser host user with identityFile := c.identityFile, password }
  | none, _, _ => .ok .onDevice

def Host.account (h : Host) : String := h.user ++ "@" ++ h.host

def title : Delivery → String
  | .onDevice => "local"
  | .copied h => "scp " ++ h.account
  | .fetched s => "http " ++ s.baseUrl

namespace Host

variable (h : Host)

def targetDir (file : Path) : Path :=
  match file.parent? with
  | some dir => if dir.text = "" then ⟨"."⟩ else dir
  | none => ⟨"."⟩

def remote (file : Path) : String := h.account ++ ":" ++ file.text

/-- The program that is started: with a password it is one that passes the password on. -/
def starter : String := if h.password.isSome then "sshpass" else h.program

def command (file : Path) : Command where
  program := h.starter
  args :=
    (if h.password.isSome then ["-e", h.program] else ["-o", "BatchMode=yes"]) ++
      ["-o", "StrictHostKeyChecking=accept-new"] ++
      (match h.identityFile with
        | some identity => ["-i", identity.text]
        | none => []) ++
      [h.remote file, (targetDir file).text]
  password := h.password

def makeDir (file : Path) : FileJob Unit := do
  let dir := targetDir file
  let _ ← Job.attempt (.makeDirs dir) (.file (.makeTransferDir dir))

/-- What the end of the program means for `file`. -/
def judge (file : Path) : Launch → Except Error Unit
  | .missing => .error (.commandMissing h.starter)
  | .refused cause => .error (.runtime (.notSpawned h.starter cause))
  | .ended code stderr =>
    if code = some 0 then .ok ()
    else .error (.commandFailure (h.program ++ " " ++ h.remote file) (code.getD (-1))
      (Text.trim stderr))

def bring (o : Outside) (file : Path) : Hook Traffic Unit := fun site =>
  match Hook.ofJob (makeDir file) site with
  | (.error e, site) => (.error e, site)
  | (.ok (), site) =>
    let command := h.command file
    let (launch, files) : Launch × Tree := match command.fault? with
      | some cause => (.refused cause, site.files)
      | none => o.launch site.own command site.files
    let traffic := match launch with
      | .ended .. => { site.own with started := site.own.started ++ [command] }
      | _ => site.own
    ((h.judge file launch).mapError .error, ⟨traffic, files⟩)

end Host

/-- The name of a component; the root has none. -/
def segment? : Path.Part → Option String
  | .root => none
  | .here => some "."
  | .up => some ".."
  | .name s => some s

namespace Server

variable (s : Server)

/-- The url of `file`: each of its components is one segment. -/
def urlOf (file : Path) : String :=
  s.baseUrl ++ String.join
    ((file.parts.filterMap segment?).map fun name => "/" ++ Text.Segment.encode name)

def partPath (file : Path) : Path := file.suffixed ".part"

def writeBody (part : Path) : List Bytes → FileJob Unit
  | [] => return
  | piece :: body => do
    let _ ← Job.attempt (.append part piece) .io
    writeBody part body

/-- Puts the file in place that came with an exchange. -/
def receive (file : Path) : Exchange → FileJob Unit
  | .failed => throw (.delivery (.getFailed (s.urlOf file)))
  | .answered status body whole => do
    if status ≠ 200 then throw (.delivery (.answered (s.urlOf file) (statusText status)))
    if let some dir := file.parent? then
      let _ ← Job.attempt (.makeDirs dir) .io
    let part := partPath file
    let _ ← Job.attempt (.create part) (.file (.create part))
    writeBody part body
    if !whole then throw (.delivery (.readFailed (s.urlOf file)))
    let _ ← Job.attempt (.rename part file) (.file (.moveIntoPlace part))

def bring (o : Outside) (file : Path) : Hook Traffic Unit := fun site =>
  let request : Request := ⟨s.urlOf file, s.timeout⟩
  let exchange := o.exchange site.own request
  Hook.ofJob (s.receive file exchange)
    { site with own := { site.own with requests := site.own.requests ++ [request] } }

end Server

def bring (o : Outside) (file : Path) : Delivery → Hook Traffic Unit
  | .onDevice => Hook.answer ()
  | .copied h => h.bring o file
  | .fetched s => s.bring o file

end Delivery
end OtaAgent
