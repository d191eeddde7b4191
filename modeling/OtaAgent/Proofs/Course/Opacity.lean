import Mathlib.Logic.Equiv.Basic
import OtaAgent.Proofs.Archive.Refusing
import OtaAgent.Proofs.Archive.Renamed
import OtaAgent.Proofs.Course.RenamedEvents
import OtaAgent.Proofs.Session.Coupled

set_option autoImplicit false

namespace OtaAgent

open Files
open OtaAgent.Path (Ordinary)

variable {σ σ' α β : Type}

def Station.transitions (s : Station σ) : List String :=
  (s.journal.filter (·.code == "STATE")).map (·.message)

namespace Correspondence

variable {C : Correspondence} {sites : Site σ → Site σ' → Prop}

theorem Stations.transitions {s : Station σ} {s' : Station σ'} (stations : C.Stations sites s s') :
    s'.transitions = s.transitions := by
  have journal := stations.journal
  unfold Station.transitions
  generalize s.journal = entries at journal ⊢
  generalize s'.journal = entries' at journal ⊢
  induction journal with
  | nil => rfl
  | @cons e e' _ _ first _ ih =>
    rw [List.filter_cons, List.filter_cons, first.code]
    split
    · rename_i transition
      rw [List.map_cons, List.map_cons, first.message (beq_iff_eq.mp transition), ih]
    · exact ih

theorem hooks_answer {agree : α → β → Prop} {a : α} {b : β} (answers : agree a b) :
    Hooks sites agree (Hook.answer a) (Hook.answer b) :=
  fun _ _ here => ⟨.ok answers, here⟩

theorem hooks_ofJob {agree : α → β → Prop} {job : FileJob α} {job' : FileJob β}
    (both : ∀ site site', sites site site' →
      Parallel (fun _ _ => True) agree (job.runOn site.files).1 (job'.runOn site'.files).1 ∧
        sites { site with files := (job.runOn site.files).2 }
          { site' with files := (job'.runOn site'.files).2 }) :
    Hooks sites agree (Hook.ofJob job) (Hook.ofJob job') := by
  intro site site' here
  obtain ⟨results, left⟩ := both site site' here
  exact ⟨results.mapError fun _ _ _ => .error _ _, left⟩

end Correspondence

namespace Course

variable {C : Correspondence} {sites : Site σ → Site σ' → Prop}

/-- What each event comes to carries over to a run of many. -/
theorem Tracks.mapM {agree : α → β → Prop} {c : Event → Course σ α} {c' : Event → Course σ' β}
    (each : ∀ e e', C.Events e e' → Tracks C sites agree (c e) (c' e'))
    {events events' : List Event} (all : List.Forall₂ C.Events events events') {s : Station σ}
    {s' : Station σ'} (stations : C.Stations sites s s') :
    List.Forall₂ (Parallel Eq agree) ((events.mapM fun e => (c e).run).run s).1
        ((events'.mapM fun e => (c' e).run).run s').1 ∧
      C.Stations sites ((events.mapM fun e => (c e).run).run s).2
        ((events'.mapM fun e => (c' e).run).run s').2 := by
  induction all generalizing s s' with
  | nil => exact ⟨.nil, stations⟩
  | cons first _ ih =>
    obtain ⟨result, between⟩ := each _ _ first s s' stations
    obtain ⟨results, after⟩ := ih between
    rw [List.mapM_cons, List.mapM_cons]
    exact ⟨.cons result results, after⟩

end Course

namespace Renaming

variable (ρ : Renaming) (cwd : Location) (own : σ → σ' → Prop)

/-- What is archived on one of the sites, the other one has archived by the other names, and all
else is the same on both. `own` says which states of the agents are to be counted the same. -/
def Sites (a : Archive) (site : Site σ) (site' : Site σ') : Prop :=
  own site.own site'.own ∧ (a.relabelling ρ cwd).Trees site.files site'.files

/-- The agents answer the same by the other names, and work with the same archive and profile. -/
structure Devices (d : Device σ) (d' : Device σ') : Prop where
  archive : d'.archive = d.archive
  profile : d'.profile = d.profile
  steady : d.archive.Steady cwd
  agents : (d.archive.correspondence ρ cwd).Agents (ρ.Sites cwd own d.archive) d d'

variable {ρ cwd own} {d : Device σ} {d' : Device σ'}

theorem Sites.ofJob {a : Archive} {agree : α → β → Prop} {job : FileJob α} {job' : FileJob β}
    (jobs : (a.relabelling ρ cwd).Jobs agree job job') {site : Site σ} {site' : Site σ'}
    (here : ρ.Sites cwd own a site site') :
    Parallel (fun _ _ => True) agree (job.runOn site.files).1 (job'.runOn site'.files).1 ∧
      ρ.Sites cwd own a { site with files := (job.runOn site.files).2 }
        { site' with files := (job'.runOn site'.files).2 } := by
  obtain ⟨results, trees⟩ := jobs _ _ here.2
  exact ⟨results, here.1, trees⟩

/-- The archive says and does the same on both devices. -/
theorem archives_renamed (archive : d'.archive = d.archive) (steady : d.archive.Steady cwd) :
    (d.archive.correspondence ρ cwd).Archives (ρ.Sites cwd own d.archive) d d' where
  histories here package := by
    rw [archive]
    exact Archive.get?_relabelled steady here.2 package
  present here _ _ files := Relabelling.present_relabelled here.2 files.paths
  digest here _ _ files := (Sites.ofJob (Archive.jobs_fileDigest files) here).1
  reinstate here _ _ version package := by
    rw [archive]
    obtain ⟨results, left⟩ := Sites.ofJob (Archive.jobs_reinstate steady version package) here
    exact ⟨results.imp fun _ _ _ => trivial, left⟩

theorem Devices.correspond (devices : ρ.Devices cwd own d d') :
    (d.archive.correspondence ρ cwd).Devices (ρ.Sites cwd own d.archive) d d' where
  profile := devices.profile
  agents := devices.agents
  archives := archives_renamed devices.archive devices.steady

/-- Where events for other handlers are passed over, the same is done by the other names. -/
theorem routed_renamed (devices : ρ.Devices cwd own d d') {s : Station σ} {s' : Station σ'}
    (stations : (d.archive.correspondence ρ cwd).Stations (ρ.Sites cwd own d.archive) s s')
    {events events' : List Event}
    (renamed : List.Forall₂ (d.archive.correspondence ρ cwd).Events events events') :
    let after := ((events.mapM fun e => (Course.route d e).run).run s).2
    let after' := ((events'.mapM fun e => (Course.route d' e).run).run s').2
    after'.transitions = after.transitions ∧
      (d.archive.correspondence ρ cwd).Stations (ρ.Sites cwd own d.archive) after after' := by
  obtain ⟨-, after⟩ := Course.Tracks.mapM
    (fun _ _ renamed => Course.tracks_route devices.correspond renamed) renamed stations
  exact ⟨after.transitions, after⟩

/-- The agent that leaves everything to the defaults does not look at versions. -/
theorem devices_minimal {a : Archive} (steady : a.Steady cwd) (profile : Profile) :
    ρ.Devices cwd Eq ⟨.minimal, a, profile⟩ ⟨.minimal, a, profile⟩ where
  archive := rfl
  profile := rfl
  steady := steady
  agents :=
    { confirmDownload _ := Correspondence.hooks_answer rfl
      transferFile _ := Correspondence.hooks_answer ⟨rfl, .none⟩
      prepareInstall _ := Correspondence.hooks_answer ⟨rfl, .none⟩
      preInstall _ := Correspondence.hooks_answer rfl
      install updates _ _ here := ⟨⟨.ok rfl, updates⟩, here⟩
      postInstall _ := Correspondence.hooks_answer trivial
      getVersion package _ _ here :=
        ⟨.ok (Course.version_current? (archives_renamed rfl steady) here package), here⟩
      setVersion receipts := Correspondence.hooks_ofJob fun _ _ here =>
        Sites.ofJob (.bind (Archive.jobs_record steady receipts) fun _ _ _ =>
          Relabelling.jobs_pure trivial) here }

def swap (v w : String) (first : Ordinary v) (second : Ordinary w) : Renaming where
  rename := Equiv.swap v w
  ordinary isName := by
    rw [Equiv.swap_apply_def]
    split
    · exact second
    · split
      · exact first
      · exact isName
  injective _ _ same := (Equiv.swap v w).injective same

/-- Other names for two versions, which come in another order by these. -/
def swapped : Renaming := swap "9" "10" (by decide +kernel) (by decide +kernel)

def plain : Device Unit := ⟨.minimal, ⟨⟨"/v"⟩, ⟨"/b"⟩⟩, ⟨"ecu", none, true⟩⟩

def twoKept (v w : String) : History :=
  ((History.fresh v).install v ⟨true, "", plain.archive.backupPath "app" v ⟨"f"⟩⟩).install w
    ⟨true, "", plain.archive.backupPath "app" w ⟨"f"⟩⟩

/-- The files of two versions, and the history that says so. -/
def keeping (v w : String) : Tree where
  nodes := [(["v"], .dir), (["v", "app"], .file (Text.Utf8.encode (twoKept v w).text)),
    (["b"], .dir), (["b", "app"], .dir), (["b", "app", v], .dir),
    (["b", "app", v, "f"], .file [1]), (["b", "app", w], .dir), (["b", "app", w, "f"], .file [2])]
  cwd := []
  cwdLost := false

/-- The device manager asks which version is installed, and orders to go back from `w` to `v`. -/
def orderedBack (v w : String) : List Event :=
  [.query "ecu" "app" none, .install {
    release := ⟨"app", w⟩
    handler := "ecu"
    offers := []
    rollbackVersion := some v
    rollbackVersions := [v, w] }]

theorem version_nine : (plain.archive.correspondence swapped []).version "9" "10" :=
  ⟨by decide +kernel, by decide +kernel⟩

theorem version_ten : (plain.archive.correspondence swapped []).version "10" "9" :=
  ⟨by decide +kernel, by decide +kernel⟩

theorem known_app : (plain.archive.correspondence swapped []).known "app" :=
  ⟨by decide +kernel, by decide +kernel⟩

theorem steady_plain : plain.archive.Steady [] := by decide +kernel

theorem histories_twoKept : (plain.archive.correspondence swapped []).Histories
    (twoKept "9" "10") (twoKept "10" "9") := by
  have isName : Ordinary "app" := by decide +kernel
  have file : (plain.archive.correspondence swapped []).file ⟨"f"⟩ ⟨"f"⟩ :=
    Archive.file_self (by decide +kernel) (by decide +kernel) (by decide +kernel)
  have nine := Archive.file_backupPath steady_plain isName.toIsName known_app version_nine file
  have ten := Archive.file_backupPath steady_plain isName.toIsName known_app version_ten file
  have backups {p p' : Path} (files : (plain.archive.correspondence swapped []).file p p') :
      (plain.archive.correspondence swapped []).Backups ⟨true, "", p⟩ ⟨true, "", p'⟩ :=
    ⟨rfl, rfl, files⟩
  exact ((Correspondence.histories_fresh version_nine).install version_nine (backups nine)).install
    version_ten (backups ten)

theorem trees_keeping :
    (plain.archive.relabelling swapped []).Trees (keeping "9" "10") (keeping "10" "9") := by
  have histories := histories_twoKept
  have kept : (plain.archive.relabelling swapped []).held ["v", "app"]
      (Text.Utf8.encode (twoKept "9" "10").text) (Text.Utf8.encode (twoKept "10" "9").text) := by
    refine (Archive.held_of_inStore (by decide +kernel) _ _).mpr ?_
    rw [History.ofBytes?_encode histories.sorted (Archive.isConsistent_install ..),
      History.ofBytes?_encode histories.sorted' (Archive.isConsistent_install ..)]
    exact .some histories
  have same {at_ : Location} (outside : ¬ plain.archive.InStore [] at_) (content : Bytes) :
      Node.Matches ((plain.archive.relabelling swapped []).held at_) (.file content)
        (.file content) :=
    .file ((Archive.held_of_not_inStore outside _ _).mpr rfl)
  exact Relabelling.trees_of_nodes rfl rfl rfl
    (.cons ⟨by decide +kernel, .dir⟩ (.cons ⟨by decide +kernel, .file kept⟩
      (.cons ⟨by decide +kernel, .dir⟩ (.cons ⟨by decide +kernel, .dir⟩
        (.cons ⟨by decide +kernel, .dir⟩
          (.cons ⟨by decide +kernel, same (by decide +kernel) _⟩
            (.cons ⟨by decide +kernel, .dir⟩
              (.cons ⟨by decide +kernel, same (by decide +kernel) _⟩ .nil))))))))

/-- By the other names for the versions, a run comes to the same statuses, and leaves a station at
which the same was done by the other names: it made the same transitions, called the same hooks and
sent the same envelopes, and no entry of a history is missing or new. -/
theorem run_renamed (devices : ρ.Devices cwd own d d') {s : Station σ} {s' : Station σ'}
    (stations : (d.archive.correspondence ρ cwd).Stations (ρ.Sites cwd own d.archive) s s')
    {events events' : List Event}
    (renamed : List.Forall₂ (d.archive.correspondence ρ cwd).Events events events') :
    let run := (events.mapM fun e => (Course.answer d e).run).run s
    let run' := (events'.mapM fun e => (Course.answer d' e).run).run s'
    run'.1 = run.1 ∧ run'.2.transitions = run.2.transitions ∧
      (d.archive.correspondence ρ cwd).Stations (ρ.Sites cwd own d.archive) run.2 run'.2 := by
  obtain ⟨results, after⟩ := Course.Tracks.mapM
    (fun _ _ renamed => Course.tracks_answer devices.correspond renamed) renamed stations
  have same := results.imp fun _ _ => Parallel.eq
  rw [List.forall₂_eq_eq_eq] at same
  exact ⟨same.symm, after.transitions, after⟩

/-- Two versions are installed, and the older one is ordered back. -/
theorem run_renamed_swapped :
    let C := plain.archive.correspondence swapped []
    let sites := swapped.Sites [] Eq plain.archive
    let s : Station Unit := .fresh () (keeping "9" "10") .accepting
    let s' : Station Unit := .fresh () (keeping "10" "9") .accepting
    let events := orderedBack "9" "10"
    let events' := orderedBack "10" "9"
    let run := (events.mapM fun e => (Course.answer plain e).run).run s
    let run' := (events'.mapM fun e => (Course.answer plain e).run).run s'
    (swapped.Devices [] Eq plain plain ∧ C.Stations sites s s' ∧
        List.Forall₂ C.Events events events') ∧
      run'.1 = run.1 ∧ run'.2.transitions = run.2.transitions ∧
        C.Stations sites run.2 run'.2 := by
  intro C sites s s' events events' run run'
  have devices : swapped.Devices [] Eq plain plain := devices_minimal steady_plain _
  have stations : C.Stations sites s s' :=
    Correspondence.stations_fresh ⟨rfl, trees_keeping⟩ fun _ => none
  have renamed : List.Forall₂ C.Events events events' :=
    .cons (.query _ _ _) (.cons (.install {
      release := ⟨known_app, rfl, version_ten⟩
      handler := rfl
      offers := fun _ => .none
      rollbackVersion := .some version_nine
      rollbackVersions := .cons version_nine (.cons version_ten .nil) }) .nil)
  -- Nothing but that they correspond is needed of the stations, and their files are long.
  clear_value s s'
  exact ⟨⟨devices, stations, renamed⟩, run_renamed devices stations renamed⟩

/-- What the last envelope says after `v` has been installed and another update has failed, with `v`
to fall back to: the version to fall back to, and whether that none is left. -/
def lastSaid (a : Archive) (v : String) : Option (Option String × Bool) :=
  let d : Device Unit := ⟨.minimal, a, ⟨"ecu", none, false⟩⟩
  let s : Station Unit := .fresh () ⟨[(["new"], .file [1])], [], false⟩ .accepting
  let events : List Event := [
    .install ⟨⟨"app", v⟩, "ecu", [⟨v, ⟨"/new"⟩, none, true⟩], none, []⟩,
    .install ⟨⟨"app", "2"⟩, "ecu", [], none, [v]⟩]
  let said := ((events.mapM fun e => (Course.answer d e).run).run s).2.outbox.sent.getLast?
  said.bind fun envelope =>
    ((envelope.member? "body").bind (·.member? "package")).map fun package =>
      ((package.member? "rollback-version").bind Json.string?,
        (package.member? "terminal-failure").isSome)

/-- A name that is one byte too long for a directory. -/
def tooLong : String := String.ofList (List.replicate 256 'v')

theorem noSlash_replicate (n : Nat) : '/' ∉ (String.ofList (List.replicate n 'v')).toList := by
  rw [String.toList_ofList]
  intro among
  exact absurd (List.eq_of_mem_replicate among) (by decide)

theorem isName_tooLong : Path.IsName tooLong where
  notEmpty := by decide +kernel
  notHere := by decide +kernel
  notUp := by decide +kernel
  noSlash := noSlash_replicate 256

/-- Where the history of a package is among its backups, a version of the same name as the history
cannot be gone back to, but by another name it can. Nor is a version recorded whose name is too long
for a directory. -/
theorem lastSaid_amongBackups :
    let a : Archive := ⟨⟨"/b/app"⟩, ⟨"/b"⟩⟩
    let r (v : String) : Receipt := ⟨"app", v, none, none, true, ⟨"/new"⟩⟩
    let t : Tree := ⟨[(["new"], .file [1])], [], false⟩
    (∃ ρ : Renaming, ρ.rename "1" = "app" ∧ lastSaid a "1" = some (some "1", false) ∧
        lastSaid a "app" = some (none, true)) ∧
      Path.IsName tooLong ∧ (∃ e, ((plain.archive.record (r tooLong)).runOn t).1 = .error e) ∧
      ∃ history, ((plain.archive.record (r "1")).runOn t).1 = .ok history := by
  intro a r t
  have exchanged : (swap "1" "app" (by decide +kernel) (by decide +kernel)).rename "1" = "app" := by
    decide +kernel
  have long : maxName < tooLong.utf8ByteSize := by decide +kernel
  have elsewhere : tooLong ∉ (r tooLong).file.names := by
    intro among
    have one : (r tooLong).file.names = ["new"] := by decide +kernel
    rw [one, List.mem_singleton] at among
    rw [among] at long
    exact absurd long (by decide)
  have recorded : ((plain.archive.record (r "1")).runOn t).1.toOption.isSome = true := by
    decide +kernel
  refine ⟨⟨_, exchanged, by decide +kernel, by decide +kernel⟩, isName_tooLong,
    Archive.record_refused_of_long (r := r tooLong) isName_tooLong long elsewhere t, ?_⟩
  cases found : ((plain.archive.record (r "1")).runOn t).1 with
  | ok history => exact ⟨history, rfl⟩
  | error e =>
    rw [found] at recorded
    cases recorded

end Renaming

end OtaAgent
