import OtaAgent.Config
import OtaAgent.Endpoint
import OtaAgent.Bench.Mode

set_option autoImplicit false

namespace OtaAgent

/-- What a command line says; what it leaves open is `none` or `false`. -/
structure Flags where
  cert : Option Path := none
  handler : Option String := none
  host : Option String := none
  port : Option Nat := none
  user : Option String := none
  identity : Option Path := none
  passwordEnv : Option String := none
  cap : Option String := none
  temp : Option Path := none
  noDelta : Bool := false
  debug : Bool := false
  mode : Option Mode := none
  rollbackVersion : Option String := none
  download : Option DownloadStatus := none
  config : Option Path := none
  log : Option Path := none
  versionDir : Option Path := none
  backupDir : Option Path := none
  deriving DecidableEq, Repr

namespace Flags

/-- The url with the host and the port that are given in the place of its own. -/
def overlayUrl (f : Flags) (url : String) : String :=
  if f.host.isSome || f.port.isSome then
    let e := Endpoint.ofUrl url
    Endpoint.url ⟨f.host.getD e.host, f.port.getD e.port⟩
  else url

/-- A user turns transfers from a staging host on. The host is the one that is given, the one that
is configured, or that of the bus. -/
def overlayTransfer (f : Flags) (url : String) (c : Config.Delivery) : Config.Delivery :=
  let c := match f.user with
    | some user => { c with
        user := some user
        host := f.host.or (c.host.or (some (Endpoint.ofUrl url).host)) }
    | none => c
  { c with
    identityFile := f.identity.or c.identityFile
    passwordEnv := f.passwordEnv.or c.passwordEnv }

/-- The configuration with all that the flags say in the place of its own settings. -/
def overlay (f : Flags) (c : Config) : Config :=
  let url := f.overlayUrl c.bus.url
  { c with
    handler := f.handler.getD c.handler
    bus := ⟨url, f.cert.getD c.bus.certDir⟩
    transfer := f.overlayTransfer url c.transfer
    delta := ⟨c.delta.enabled && !f.noDelta, f.cap.getD c.delta.cap⟩
    paths := { c.paths with
      cacheDir := f.temp.getD c.paths.cacheDir
      versionDir := f.versionDir.getD c.paths.versionDir
      backupDir := f.backupDir.getD c.paths.backupDir }
    debug := c.debug || f.debug }

end Flags
end OtaAgent
