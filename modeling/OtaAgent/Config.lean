import OtaAgent.Environment
import OtaAgent.Fault
import OtaAgent.Text.Blank
import OtaAgent.Toml.Document

set_option autoImplicit false

namespace OtaAgent

namespace Config

structure Bus where
  url : String
  certDir : Path
  deriving DecidableEq, Repr

structure Paths where
  cacheDir : Path
  backupDir : Path
  versionDir : Path
  logDir : Path
  deriving DecidableEq, Repr

/-- Whether deltas are supported, and the capability that is announced then. -/
structure Delta where
  enabled : Bool
  cap : String
  deriving DecidableEq, Repr

structure Delivery where
  host : Option String
  user : Option String
  identityFile : Option Path
  /-- The variable that holds the password. -/
  passwordEnv : Option String
  httpBaseUrl : Option String
  /-- In seconds, for each request. -/
  timeout : Option Nat
  deriving DecidableEq, Repr

end Config

structure Config where
  handler : String
  bus : Config.Bus
  paths : Config.Paths
  delta : Config.Delta
  transfer : Config.Delivery
  debug : Bool
  rebootSupport : Bool
  /-- Package files are compared with the digest that was received. -/
  verifyChecksum : Bool
  deriving DecidableEq, Repr

namespace Config

def Bus.default : Bus := ⟨"tcp://localhost:9133", ⟨"/data/sota/certs/rom-ua/"⟩⟩

def Paths.default (env : Environment) : Paths where
  cacheDir := ⟨"/tmp/ua-core/"⟩
  backupDir := ⟨"/data/sota/backup/"⟩
  versionDir := ⟨"/data/sota/versions"⟩
  logDir := (env.stateDir.join "ua-core").join "logs"

def Delta.default : Delta := ⟨true, "A:3;B:3;C:100"⟩

/-- Package files are taken to be on the device already. -/
def Delivery.default : Delivery := ⟨none, none, none, none, none, none⟩

def default (env : Environment) : Config where
  handler := "/ECU/ROM"
  bus := .default
  paths := .default env
  delta := .default
  transfer := .default
  debug := false
  rebootSupport := false
  verifyChecksum := true

/-- The fields `names` of a table, those that are absent as `none`. A table may be given as an array
of its fields, and a date counts as a table without any. -/
def fields? (names : List String) : Toml → Option (List (Option Toml))
  | .table members => some (names.map fun name => members.lookup name)
  | .array items => some (names.mapIdx fun i _ => items[i]?)
  | .datetime => some (names.map fun _ => none)
  | _ => none

def text? : Toml → Option String
  | .string s => some s
  | _ => none

def path? : Toml → Option Path
  | .string s => some ⟨s⟩
  | _ => none

def flag? : Toml → Option Bool
  | .boolean b => some b
  | _ => none

def count? : Toml → Option Nat
  | .integer (.ofNat n) => some n
  | _ => none

variable {α : Type}

/-- A field that is `value` if it is absent. -/
def default? (value : α) (read? : Toml → Option α) : Option Toml → Option α
  | none => some value
  | some v => read? v

def optional? (read? : Toml → Option α) : Option Toml → Option (Option α)
  | none => some none
  | some v => (read? v).map some

def Bus.ofToml? (v : Toml) : Option Bus := do
  match ← fields? ["url", "cert_dir"] v with
  | [url, certDir] =>
    return {
      url := ← default? default.url text? url
      certDir := ← default? default.certDir path? certDir }
  | _ => none

def Paths.ofToml? (env : Environment) (v : Toml) : Option Paths := do
  match ← fields? ["cache_dir", "backup_dir", "version_dir", "log_dir"] v with
  | [cacheDir, backupDir, versionDir, logDir] =>
    return {
      cacheDir := ← default? (default env).cacheDir path? cacheDir
      backupDir := ← default? (default env).backupDir path? backupDir
      versionDir := ← default? (default env).versionDir path? versionDir
      logDir := ← default? (default env).logDir path? logDir }
  | _ => none

def Delta.ofToml? (v : Toml) : Option Delta := do
  match ← fields? ["enabled", "cap"] v with
  | [enabled, cap] =>
    return {
      enabled := ← default? default.enabled flag? enabled
      cap := ← default? default.cap text? cap }
  | _ => none

def Delivery.ofToml? (v : Toml) : Option Delivery := do
  let names := ["host", "user", "identity_file", "password_env", "http_base_url", "timeout"]
  match ← fields? names v with
  | [host, user, identityFile, passwordEnv, httpBaseUrl, timeout] =>
    return {
      host := ← optional? text? host
      user := ← optional? text? user
      identityFile := ← optional? path? identityFile
      passwordEnv := ← optional? text? passwordEnv
      httpBaseUrl := ← optional? text? httpBaseUrl
      timeout := ← optional? count? timeout }
  | _ => none

/-- The configuration that a table holds; keys that it does not know are passed over. -/
def ofToml? (env : Environment) (v : Toml) : Option Config := do
  let names := ["node_type", "bus", "paths", "delta", "transfer", "debug", "reboot_support",
    "verify_checksum"]
  match ← fields? names v with
  | [handler, bus, paths, delta, transfer, debug, rebootSupport, verifyChecksum] =>
    return {
      handler := ← default? (default env).handler text? handler
      bus := ← default? .default Bus.ofToml? bus
      paths := ← default? (.default env) (Paths.ofToml? env) paths
      delta := ← default? .default Delta.ofToml? delta
      transfer := ← default? .default Delivery.ofToml? transfer
      debug := ← default? (default env).debug flag? debug
      rebootSupport := ← default? (default env).rebootSupport flag? rebootSupport
      verifyChecksum := ← default? (default env).verifyChecksum flag? verifyChecksum }
  | _ => none

def parse (env : Environment) (text : String) : Except ConfigFault Config :=
  match (Toml.parse? text).bind fun members => ofToml? env (.table members) with
  | some config => .ok config
  | none => .error .invalidToml

def load (env : Environment) (t : Files.Tree) (path : Path) : Except ConfigFault Config :=
  match t.readText path with
  | .error e => .error (.unreadable path e)
  | .ok text => (parse env text).mapError (.inFile path)

def defaultPath (env : Environment) : Path := (env.configDir.join "ua-core").join "agent.toml"

/-- The configuration in the file that is named, or else in the one at its usual place. Only a file
that is named must be there. -/
def loadFrom (env : Environment) (t : Files.Tree) : Option Path → Except ConfigFault Config
  | some path => load env t path
  | none => if t.present (defaultPath env) then load env t (defaultPath env) else .ok (default env)

/-- Refuses a configuration that an agent cannot start with. -/
def validate (c : Config) : Except ConfigFault Unit :=
  if Text.trim c.bus.url = "" then .error .emptyBusUrl
  else if c.bus.certDir.text = "" then .error .emptyCertDir
  else if Text.trim c.handler = "" then .error .emptyHandler
  else if c.delta.enabled ∧ (c.paths.cacheDir.text = "" ∨ c.paths.backupDir.text = "") then
    .error .deltaNeedsDirs
  else .ok ()

end Config
end OtaAgent
