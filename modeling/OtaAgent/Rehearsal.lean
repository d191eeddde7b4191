import OtaAgent.Hook

set_option autoImplicit false

namespace OtaAgent

/-- What one call of a hook does to the files, and its answer if that is not the usual one. -/
structure Scene (α : Type) where
  writes : List (Path × Bytes) := []
  removed : List Path := []
  answer : Option (Answer α) := none

namespace Scene

variable {α σ : Type}

/-- The files after the scene. What cannot be done to them is left out. -/
def act (s : Scene α) (t : Files.Tree) : Files.Tree :=
  let t := s.writes.foldl (fun t (p, bytes) => (t.supply p bytes).2) t
  s.removed.foldl (fun t p => (t.discard p).2) t

def play (s : Scene α) (usual : Hook σ α) : Hook σ α := fun site =>
  let site := { site with files := s.act site.files }
  match s.answer with
  | some answer => (answer, site)
  | none => usual site

/-- Plays a scene for a hook that has no error to give, with `fallback` in its place. -/
def playNotice (s : Scene α) (usual fallback : α) : Notice σ α := fun site =>
  let site := { site with files := s.act site.files }
  match s.answer with
  | some (.ok a) => (.ok a, site)
  | some (.error (.panic p)) => (.error p, site)
  | some (.error (.error _)) => (.ok fallback, site)
  | none => (.ok usual, site)

end Scene

/-- The scenes that are left to each hook. -/
structure Rehearsal where
  init : List (Scene Unit) := []
  confirmDownload : List (Scene DownloadStatus) := []
  transferFile : List (Scene Transferred) := []
  prepareInstall : List (Scene Prepared) := []
  preInstall : List (Scene InstallStatus) := []
  install : List (Scene Verdict) := []
  postInstall : List (Scene Unit) := []
  getVersion : List (Scene (Option String)) := []
  setVersion : List (Scene Unit) := []
  presence : List (Scene Int) := []
  onMessage : List (Scene Bool) := []

namespace Rehearsal

variable {α : Type}

def next (queue : Rehearsal → List (Scene α)) (rest : Rehearsal → List (Scene α) → Rehearsal)
    (usual : Hook Rehearsal α) : Hook Rehearsal α := fun site =>
  let scenes := queue site.own
  (scenes.headD {}).play usual { site with own := rest site.own scenes.tail }

def nextNotice (queue : Rehearsal → List (Scene α))
    (rest : Rehearsal → List (Scene α) → Rehearsal) (usual fallback : α) : Notice Rehearsal α :=
  fun site =>
    let scenes := queue site.own
    (scenes.headD {}).playNotice usual fallback { site with own := rest site.own scenes.tail }

/-- What the agent does when nothing is laid down: as little as it can, and installs succeed. -/
def usual : Agent Rehearsal where
  install := Hook.installing (.answer ⟨.completed, none⟩)

def agent : Agent Rehearsal where
  init := next (·.init) (fun r q => { r with init := q }) usual.init
  confirmDownload := fun package =>
    next (·.confirmDownload) (fun r q => { r with confirmDownload := q })
      (usual.confirmDownload package)
  transferFile := fun update =>
    next (·.transferFile) (fun r q => { r with transferFile := q }) (usual.transferFile update)
  prepareInstall := fun update =>
    next (·.prepareInstall) (fun r q => { r with prepareInstall := q })
      (usual.prepareInstall update)
  preInstall := fun update =>
    next (·.preInstall) (fun r q => { r with preInstall := q }) (usual.preInstall update)
  install := Hook.installing
    (next (·.install) (fun r q => { r with install := q }) (.answer ⟨.completed, none⟩))
  postInstall := fun package =>
    next (·.postInstall) (fun r q => { r with postInstall := q }) (usual.postInstall package)
  getVersion := fun archive package =>
    next (·.getVersion) (fun r q => { r with getVersion := q }) (usual.getVersion archive package)
  setVersion := fun archive receipt =>
    next (·.setVersion) (fun r q => { r with setVersion := q }) (usual.setVersion archive receipt)
  presence := fun _ => nextNotice (·.presence) (fun r q => { r with presence := q }) 0 (-1)
  onMessage := fun _ _ =>
    nextNotice (·.onMessage) (fun r q => { r with onMessage := q }) false false

end Rehearsal
end OtaAgent
