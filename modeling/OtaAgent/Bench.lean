import OtaAgent.Bench.Mode
import OtaAgent.Delivery

set_option autoImplicit false

namespace OtaAgent

structure Bench where
  mode : Mode
  rollbackVersion : Option String
  download : DownloadStatus
  cacheDir : Path
  delivery : Delivery

namespace Bench

open Files

structure Memory where
  /-- The last install was completed; so it is taken to be before the first. -/
  succeeded : Bool
  traffic : Traffic

def Memory.fresh : Memory := ⟨true, .none⟩

variable (b : Bench)

/-- Refuses the rollback mode without a version to fall back to. -/
def validate : Except ConfigFault Unit :=
  if b.mode = .rollback ∧ b.rollbackVersion = none then .error .rollbackVersionMissing else .ok ()

def shelf (package : String) : Path := b.cacheDir.join package

/-- Where the file of an update is staged: under its own name, or one made of package and version if
it has none. -/
def shelfPath (update : Update) : Path :=
  let name := update.file.fileName?.getD (update.name ++ "-" ++ update.version)
  ((b.shelf update.name).join update.version).join name

def clear (dir : Path) : FileJob Unit := do
  match ← Job.ask (.removeAll dir) with
  | .ok _ => return
  | .error .notFound => return
  | .error e => throw (.file (.clear dir) e)

def makeCacheDir : FileJob Unit := do
  let _ ← Job.attempt (.makeDirs b.cacheDir) (.file (.makeCacheDir b.cacheDir))

/-- Stages the file of an update in the place of all that is staged of its package. -/
def shelve (update : Update) : FileJob Unit := do
  let staged := b.shelfPath update
  clear (b.shelf update.name)
  if let some dir := staged.parent? then
    let _ ← Job.attempt (.makeDirs dir) .io
  let _ ← Job.attempt (.copy update.file staged) (.file (.stage update.file staged))

/-- An update whose file is staged already stays as it is. -/
def prepare (update : Update) : FileJob Prepared := do
  if b.mode = .prepareFailure then return ⟨.failed, none⟩
  let staged := b.shelfPath update
  if !staged.same update.file then b.shelve update
  return ⟨.ready, some staged⟩

/-- What the mode lays down for the install of a version, and the version to fall back to. -/
def outcome (succeeded : Bool) (version : String) : Verdict :=
  match b.mode, b.rollbackVersion with
  | .success, _ => ⟨.completed, none⟩
  | .prepareFailure, _ => ⟨.completed, none⟩
  | .failure, _ => ⟨.failed, none⟩
  | .toggle, _ => ⟨if succeeded then .failed else .completed, none⟩
  | .rollback, some target =>
    if target = version then ⟨.completed, none⟩ else ⟨.rollback, some target⟩
  | .rollback, none => ⟨.failed, none⟩

/-- Brings the file of an update. That it cannot be brought is an answer, not an error. -/
def bringHook (o : Outside) (update : Update) : Hook Memory Transferred := fun site =>
  let (result, visited) := b.delivery.bring o update.file ⟨site.own.traffic, site.files⟩
  let status := match result with
    | .ok () => 0
    | .error _ => 1
  (.ok ⟨status, none⟩, ⟨{ site.own with traffic := visited.own }, visited.files⟩)

def installHook (version : String) : Hook Memory Verdict := fun site =>
  let outcome := b.outcome site.own.succeeded version
  (.ok outcome, { site with own := { site.own with succeeded := outcome.status = .completed } })

def agent (o : Outside) : Agent Memory where
  init := Hook.ofJob b.makeCacheDir
  confirmDownload := fun _ => Hook.answer b.download
  transferFile := b.bringHook o
  prepareInstall := fun update => Hook.ofJob (b.prepare update)
  install := fun update => Hook.installing (b.installHook update.version) update
  postInstall := fun package => Hook.ofJob (clear (b.shelf package))

end Bench
end OtaAgent
