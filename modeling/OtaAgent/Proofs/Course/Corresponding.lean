import OtaAgent.Proofs.Correspondence
import OtaAgent.Proofs.Course.Coupled
import OtaAgent.Proofs.Files.Job

set_option autoImplicit false

namespace OtaAgent

variable {σ σ' α β : Type}

namespace Course

def reportOf (profile : Profile) (package : String) (version : Option String)
    (history : Option History) : Json :=
  let archived := match history with
    | none => []
    | some history => [
      ("version-list", Json.ofMembers (history.backups.map fun (version, backup) =>
        (version, Json.ofMembers [("file", .string backup.file.text),
          ("sha-256", .string backup.digest), ("downloaded", .bool backup.downloaded)]))),
      ("rollback-versions", Json.strings history.backups.keys)]
  .ofMembers ([("type", .string profile.handler), ("name", .string package),
    ("version", Json.ofOption .string version)] ++
    Report.given "delta-cap" (profile.deltaCap.map .string) ++ archived)

theorem packageReport_eq (d : Device σ) (t : Files.Tree) (package : String)
    (version : Option String) :
    packageReport d t package version =
      reportOf d.profile package version (d.archive.get? t package) := rfl

end Course

namespace Correspondence

variable (C : Correspondence)

structure Remarked (m m' : Remarks) : Prop where
  rollbackVersion : Option.Rel C.version m.rollbackVersion m'.rollbackVersion
  rollbackVersions : List.Forall₂ C.version m.rollbackVersions m'.rollbackVersions
  terminalFailure : m'.terminalFailure = m.terminalFailure
  versionList : m.versionList = none ∧ m'.versionList = none ∨ ∃ v v' said, C.version v v' ∧
    m.versionList = some (.ofMembers [(v, said)]) ∧ m'.versionList = some (.ofMembers [(v', said)])

/-- The envelopes that a course sends. Only those that reply to a query name several versions in an
order of their own. -/
inductive Envelopes : Json → Json → Prop
  | status (handler : String) {r r' : Release} (releases : C.Releases r r') (status : Status)
      {m m' : Remarks} (remarks : C.Remarked m m') :
      Envelopes (Report.status handler r status m) (Report.status handler r' status m')
  | progress {r r' : Release} (releases : C.Releases r r') (stage : Stage) (percent : Nat)
      (indeterminate : Bool) :
      Envelopes (Report.progress r stage percent indeterminate)
        (Report.progress r' stage percent indeterminate)
  | reply (replyId : Option String) (profile : Profile) (package : String)
      {version version' : Option String} (versions : Option.Rel C.version version version')
      {history history' : Option History} (histories : Option.Rel C.Histories history history') :
      Envelopes (Report.queryReply replyId (Course.reportOf profile package version history))
        (Report.queryReply replyId (Course.reportOf profile package version' history'))

/-- Entries of the log. Those on a transition read the same; others may name versions, files or the
reasons of an error. -/
structure Logs (e e' : LogEntry) : Prop where
  level : e'.level = e.level
  code : e'.code = e.code
  message : e.code = "STATE" → e'.message = e.message

structure Transfers (x x' : Transferred) : Prop where
  status : x'.status = x.status
  newPath : Option.Rel C.file x.newPath x'.newPath

structure Preparations (x x' : Prepared) : Prop where
  status : x'.status = x.status
  newPath : Option.Rel C.file x.newPath x'.newPath

inductive Stagings : Readiness → Readiness → Prop
  | ready {u u' : Update} (updates : C.Updates u u') : Stagings (.ready u) (.ready u')
  | ended (status : InstallStatus) : Stagings (.ended status) (.ended status)

/-- Both hooks give an error, or both panic alike. -/
inductive Failures : Failure → Failure → Prop
  | error (e e' : Error) : Failures (.error e) (.error e')
  | panic (p : Panic) : Failures (.panic p) (.panic p)

/-- Both hooks fail, or both give answers that `agree` relates. -/
abbrev Answers (agree : α → β → Prop) : Answer α → Answer β → Prop := Parallel Failures agree

/-- Both agents answer the same, and make the same of the update. -/
structure Installs (x x' : Installed) : Prop where
  answer : Answers Eq x.answer x'.answer
  update : C.Updates x.update x'.update

/-- The same hook was called with the same, and answered the same. -/
inductive HookCalls : HookCall → HookCall → Prop
  | init {x x' : Answer Unit} (answers : Answers (fun _ _ => True) x x') :
      HookCalls (.init x) (.init x')
  | confirmDownload {r r' : Release} (releases : C.Releases r r') {x x' : Answer DownloadStatus}
      (answers : Answers Eq x x') : HookCalls (.confirmDownload r x) (.confirmDownload r' x')
  | transferFile {u u' : Update} (updates : C.Updates u u') {x x' : Answer Transferred}
      (answers : Answers C.Transfers x x') : HookCalls (.transferFile u x) (.transferFile u' x')
  | prepareInstall {u u' : Update} (updates : C.Updates u u') {x x' : Answer Prepared}
      (answers : Answers C.Preparations x x') :
      HookCalls (.prepareInstall u x) (.prepareInstall u' x')
  | preInstall {u u' : Update} (updates : C.Updates u u') {x x' : Answer InstallStatus}
      (answers : Answers Eq x x') : HookCalls (.preInstall u x) (.preInstall u' x')
  | install {u u' : Update} (updates : C.Updates u u') {x x' : Installed}
      (installs : C.Installs x x') : HookCalls (.install u x) (.install u' x')
  | postInstall (package : String) {x x' : Answer Unit}
      (answers : Answers (fun _ _ => True) x x') :
      HookCalls (.postInstall package x) (.postInstall package x')
  | getVersion (package : String) {x x' : Answer (Option String)}
      (answers : Answers (Option.Rel C.version) x x') :
      HookCalls (.getVersion package x) (.getVersion package x')
  | setVersion {r r' : Receipt} (receipts : C.Receipts r r') {x x' : Answer Unit}
      (answers : Answers (fun _ _ => True) x x') : HookCalls (.setVersion r x) (.setVersion r' x')
  | presence (connected : Bool) (advice : Except Panic Int) :
      HookCalls (.presence connected advice) (.presence connected advice)
  | onMessage (kind : String) (taken : Except Panic Bool) :
      HookCalls (.onMessage kind taken) (.onMessage kind taken)

structure Standings (t t' : Standing) : Prop where
  phase : t'.phase = t.phase
  staged : Option.Rel C.Updates t.staged t'.staged
  awaited : Option.Rel C.Releases t.awaited t'.awaited

variable (sites : Site σ → Site σ' → Prop)

/-- The same was done at both stations, and the same goes on from there. -/
structure Stations (s : Station σ) (s' : Station σ') : Prop where
  site : sites s.site s'.site
  refusal : s'.outbox.refusal = s.outbox.refusal
  offered : s'.outbox.offered = s.outbox.offered
  sent : List.Forall₂ C.Envelopes s.outbox.sent s'.outbox.sent
  journal : List.Forall₂ Logs s.journal s'.journal
  calls : List.Forall₂ (fun call call' => C.HookCalls call.hook call'.hook) s.calls s'.calls
  standing : C.Standings s.standing s'.standing

/-- From sites that correspond both come to results that `agree` relates, and leave sites that
correspond. -/
def Deeds (agree : α → β → Prop) (deed : Deed σ α) (deed' : Deed σ' β) : Prop :=
  ∀ site site', sites site site' →
    agree (deed site).1 (deed' site').1 ∧ sites (deed site).2 (deed' site').2

abbrev Hooks (agree : α → β → Prop) (hook : Hook σ α) (hook' : Hook σ' β) : Prop :=
  Deeds sites (Answers agree) hook hook'

/-- The agents answer the same about what corresponds. -/
structure Agents (d : Device σ) (d' : Device σ') : Prop where
  confirmDownload {r r' : Release} (releases : C.Releases r r') :
    Hooks sites Eq (d.agent.confirmDownload r) (d'.agent.confirmDownload r')
  transferFile {u u' : Update} (updates : C.Updates u u') :
    Hooks sites C.Transfers (d.agent.transferFile u) (d'.agent.transferFile u')
  prepareInstall {u u' : Update} (updates : C.Updates u u') :
    Hooks sites C.Preparations (d.agent.prepareInstall u) (d'.agent.prepareInstall u')
  preInstall {u u' : Update} (updates : C.Updates u u') :
    Hooks sites Eq (d.agent.preInstall u) (d'.agent.preInstall u')
  install {u u' : Update} (updates : C.Updates u u') :
    Deeds sites C.Installs (d.agent.install u) (d'.agent.install u')
  postInstall (package : String) :
    Hooks sites (fun _ _ => True) (d.agent.postInstall package) (d'.agent.postInstall package)
  getVersion (package : String) :
    Hooks sites (Option.Rel C.version) (d.agent.getVersion d.archive package)
      (d'.agent.getVersion d'.archive package)
  setVersion {r r' : Receipt} (receipts : C.Receipts r r') :
    Hooks sites (fun _ _ => True) (d.agent.setVersion d.archive r)
      (d'.agent.setVersion d'.archive r')

/-- The files of sites that correspond say the same to the course. -/
structure Archives (d : Device σ) (d' : Device σ') : Prop where
  histories {site : Site σ} {site' : Site σ'} (same : sites site site') (package : String) :
    Option.Rel C.Histories (d.archive.get? site.files package)
      (d'.archive.get? site'.files package)
  present {site : Site σ} {site' : Site σ'} (same : sites site site') {p p' : Path}
    (files : C.file p p') : site'.files.present p' = site.files.present p
  digest {site : Site σ} {site' : Site σ'} (same : sites site site') {p p' : Path}
    (files : C.file p p') : Parallel (fun _ _ => True) Eq ((fileDigest p).runOn site.files).1
      ((fileDigest p').runOn site'.files).1
  reinstate {site : Site σ} {site' : Site σ'} (same : sites site site') {v v' : String}
    (version : C.version v v') (package : String) :
    Parallel (fun _ _ => True) (fun _ _ => True)
        ((d.archive.reinstate package v).runOn site.files).1
        ((d'.archive.reinstate package v').runOn site'.files).1 ∧
      sites { site with files := ((d.archive.reinstate package v).runOn site.files).2 }
        { site' with files := ((d'.archive.reinstate package v').runOn site'.files).2 }

/-- The devices serve in the same way, each by its own names. -/
structure Devices (d : Device σ) (d' : Device σ') : Prop where
  profile : d'.profile = d.profile
  agents : C.Agents sites d d'
  archives : C.Archives sites d d'

section Stations

variable {C sites} {s : Station σ} {s' : Station σ'} {v v' : Json}

theorem stations_fresh {own : σ} {own' : σ'} {files files' : Files.Tree}
    (site : sites ⟨own, files⟩ ⟨own', files'⟩) (refusal : Nat → Option Error) :
    C.Stations sites (.fresh own files (.ofRefusal refusal))
      (.fresh own' files' (.ofRefusal refusal)) where
  site := site
  refusal := rfl
  offered := rfl
  sent := .nil
  journal := .nil
  calls := .nil
  standing := ⟨rfl, .none, .none⟩

theorem Stations.phase (stations : C.Stations sites s s') : s'.phase = s.phase :=
  stations.standing.phase

theorem Stations.noted (stations : C.Stations sites s s') {e e' : LogEntry} (logs : Logs e e') :
    C.Stations sites (s.noted e) (s'.noted e') where
  __ := stations
  journal := List.rel_append stations.journal (.cons logs .nil)

theorem Stations.called (stations : C.Stations sites s s') {hook hook' : HookCall}
    (calls : C.HookCalls hook hook') {site : Site σ} {site' : Site σ'}
    (same : sites site site') : C.Stations sites (s.called hook site) (s'.called hook' site') where
  __ := stations
  site := same
  calls := List.rel_append stations.calls (.cons calls .nil)

theorem Stations.changed (stations : C.Stations sites s s') {site : Site σ} {site' : Site σ'}
    (same : sites site site') : C.Stations sites { s with site } { s' with site := site' } where
  __ := stations
  site := same

theorem Stations.movedTo (stations : C.Stations sites s s') {t t' : Standing}
    (standing : C.Standings t t') : C.Stations sites (s.movedTo t) (s'.movedTo t') where
  __ := stations
  standing := standing

/-- An envelope is taken at both stations, or refused at both. -/
theorem Stations.sends (stations : C.Stations sites s s') (envelopes : C.Envelopes v v') :
    (s'.outbox.send v').1.isNone = (s.outbox.send v).1.isNone ∧
      C.Stations sites (s.offered v) (s'.offered v') := by
  have other : "DIAG-SEND" ≠ "STATE" := by decide
  unfold Station.offered Outbox.send
  rw [stations.refusal, stations.offered]
  cases s.outbox.refusal s.outbox.offered with
  | none =>
    refine ⟨rfl, ?_⟩
    exact {
      stations with
      refusal := rfl
      offered := rfl
      sent := List.rel_append stations.sent (.cons envelopes .nil) }
  | some e =>
    refine ⟨rfl, ?_⟩
    have refused : C.Stations sites
        { s with outbox := { s.outbox with offered := s.outbox.offered + 1 } }
        { s' with outbox := ⟨s.outbox.refusal, s.outbox.offered + 1, s'.outbox.sent⟩ } := {
      stations with
      refusal := rfl
      offered := rfl }
    exact refused.noted ⟨rfl, rfl, fun state => absurd state other⟩

end Stations

end Correspondence

namespace Course

variable {C : Correspondence} {sites : Site σ → Site σ' → Prop}

/-- From stations that correspond both stretches come to the same error, or to values that `agree`
relates, and leave stations that correspond. -/
def Tracks (C : Correspondence) (sites : Site σ → Site σ' → Prop) (agree : α → β → Prop)
    (c : Course σ α) (c' : Course σ' β) : Prop :=
  ∀ s s', C.Stations sites s s' →
    Parallel Eq agree (runOn c s).1 (runOn c' s').1 ∧
      C.Stations sites (runOn c s).2 (runOn c' s').2

section Rules

variable {α' β' : Type} {agree : α → β → Prop} {agree' : α' → β' → Prop} {c : Course σ α}
  {c' : Course σ' β}

theorem tracks_pure {a : α} {b : β} (values : agree a b) :
    Tracks C sites agree (pure a) (pure b) :=
  fun _ _ stations => ⟨.ok values, stations⟩

theorem tracks_throw (e : Error) :
    Tracks C sites agree (throw e : Course σ α) (throw e : Course σ' β) :=
  fun _ _ stations => ⟨.error rfl, stations⟩

theorem Tracks.bind {f : α → Course σ α'} {g : β → Course σ' β'} (first : Tracks C sites agree c c')
    (rest : ∀ a b, agree a b → Tracks C sites agree' (f a) (g b)) :
    Tracks C sites agree' (c >>= f) (c' >>= g) := by
  intro s s' stations
  obtain ⟨results, between⟩ := first s s' stations
  rw [runOn_bind, runOn_bind]
  cases ran : runOn c s with
  | mk result next => cases ran' : runOn c' s' with
    | mk result' next' =>
      rw [ran, ran'] at results between
      cases results with
      | ok values => exact rest _ _ values next next' between
      | error same => exact ⟨.error same, between⟩

theorem Tracks.get_bind {f : Station σ → Course σ α} {g : Station σ' → Course σ' β}
    (rest : ∀ s s', C.Stations sites s s' → Tracks C sites agree (f s) (g s')) :
    Tracks C sites agree (get >>= f) (get >>= g) :=
  fun s s' stations => rest s s' stations s s' stations

theorem tracks_set {next : Station σ} {next' : Station σ'}
    (stations : C.Stations sites next next') :
    Tracks C sites (fun _ _ => True) (set next : Course σ Unit) (set next' : Course σ' Unit) :=
  fun _ _ _ => ⟨.ok trivial, stations⟩

theorem tracks_note (level : Level) {code message message' : String} (other : code ≠ "STATE") :
    Tracks C sites (fun _ _ => True) (note level code message) (note level code message') :=
  fun _ _ stations =>
    ⟨.ok trivial, stations.noted ⟨rfl, rfl, fun state => absurd state other⟩⟩

theorem tracks_move {f f' : Standing → Standing}
    (moves : ∀ t t', C.Standings t t' → C.Standings (f t) (f' t')) :
    Tracks C sites (fun _ _ => True) (modify fun s => s.movedTo (f s.standing) : Course σ Unit)
      (modify fun s => s.movedTo (f' s.standing) : Course σ' Unit) :=
  fun _ _ stations => ⟨.ok trivial, stations.movedTo (moves _ _ stations.standing)⟩

theorem tracks_send {v v' : Json} (envelopes : C.Envelopes v v') :
    Tracks C sites Eq (send v) (send v') := by
  intro s s' stations
  obtain ⟨took, after⟩ := stations.sends envelopes
  rw [runOn_send, runOn_send, took]
  exact ⟨.ok rfl, after⟩

theorem tracks_files : Tracks C sites (fun t t' => ∃ site site', sites site site' ∧
    site.files = t ∧ site'.files = t') (files (σ := σ)) (files (σ := σ')) :=
  .get_bind fun _ _ stations => tracks_pure ⟨_, _, stations.site, rfl, rfl⟩

theorem tracks_enter (target : Phase) :
    Tracks C sites (fun _ _ => True) (enter (σ := σ) target) (enter (σ := σ') target) := by
  apply Tracks.get_bind
  intro s s' stations
  rw [stations.phase]
  split
  · exact tracks_throw _
  · rename_i next _
    have noted (message : String) : Tracks C sites (fun _ _ => True)
        (note (σ := σ) .debug "STATE" message) (note (σ := σ') .debug "STATE" message) :=
      fun _ _ stations => ⟨.ok trivial, stations.noted ⟨rfl, rfl, fun _ => rfl⟩⟩
    have moved (t t' : Standing) (standings : C.Standings t t') :
        C.Standings { t with phase := next } { t' with phase := next } :=
      ⟨rfl, standings.staged, standings.awaited⟩
    exact .bind (noted _) fun _ _ _ => tracks_move moved

theorem tracks_call {deed : Deed σ α} {deed' : Deed σ' β} {trace : α → HookCall}
    {trace' : β → HookCall} (deeds : Correspondence.Deeds sites agree deed deed')
    (calls : ∀ x x', agree x x' → C.HookCalls (trace x) (trace' x')) :
    Tracks C sites agree (call deed trace) (call deed' trace') := by
  intro s s' stations
  obtain ⟨results, left⟩ := deeds _ _ stations.site
  rw [runOn_call, runOn_call]
  exact ⟨.ok results, stations.called (calls _ _ results) left⟩

theorem tracks_ask {name : String} {hook : Hook σ α} {hook' : Hook σ' β}
    {trace : Answer α → HookCall} {trace' : Answer β → HookCall}
    (hooks : Correspondence.Hooks sites agree hook hook')
    (calls : ∀ x x', Correspondence.Answers agree x x' → C.HookCalls (trace x) (trace' x')) :
    Tracks C sites (Parallel (fun _ _ => True) agree) (ask name hook trace)
      (ask name hook' trace') :=
  .bind (tracks_call hooks calls) fun _ _ answers =>
    tracks_pure (answers.mapError fun _ _ _ => trivial)

theorem tracks_perform {job : FileJob α} {job' : FileJob β}
    (both : ∀ site site', sites site site' →
      Parallel (fun _ _ => True) agree (job.runOn site.files).1 (job'.runOn site'.files).1 ∧
        sites { site with files := (job.runOn site.files).2 }
          { site' with files := (job'.runOn site'.files).2 }) :
    Tracks C sites (Parallel (fun _ _ => True) agree) (perform job) (perform job') := by
  intro s s' stations
  obtain ⟨results, left⟩ := both _ _ stations.site
  exact ⟨.ok results, stations.changed left⟩

theorem tracks_report (d : Device σ) (d' : Device σ') (same : d'.profile = d.profile)
    {r r' : Release} (releases : C.Releases r r') (status : Status) {m m' : Remarks}
    (remarks : C.Remarked m m') :
    Tracks C sites Eq (report d r status m) (report d' r' status m') := by
  unfold report
  rw [same]
  exact .bind (tracks_note _ (by decide)) fun _ _ _ =>
    tracks_send (.status _ releases status remarks)

theorem tracks_progress {r r' : Release} (releases : C.Releases r r') (stage : Stage)
    (percent : Nat) (indeterminate : Bool) :
    Tracks C sites (fun _ _ => True) (progress (σ := σ) r stage percent indeterminate)
      (progress (σ := σ') r' stage percent indeterminate) := by
  unfold progress reportProgress
  split
  · exact tracks_note _ (by decide)
  · rw [bind_assoc, bind_assoc]
    exact .bind (tracks_send (.progress releases stage percent indeterminate)) fun _ _ _ =>
      tracks_pure trivial

end Rules

end Course
end OtaAgent
