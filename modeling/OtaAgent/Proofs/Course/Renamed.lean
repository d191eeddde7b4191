import OtaAgent.Proofs.Course.Corresponding

set_option autoImplicit false

namespace OtaAgent.Course

variable {σ σ' : Type} {C : Correspondence} {sites : Site σ → Site σ' → Prop}

section Updates

variable {o o' : Order} {u u' : Update}

theorem version_target (orders : C.Orders o o') : C.version o.target o'.target := by
  unfold Order.target
  have named := orders.rollbackVersion
  generalize o.rollbackVersion = back at named ⊢
  generalize o'.rollbackVersion = back' at named ⊢
  cases named with
  | none => exact orders.release.version
  | some version => exact version

theorem releases_target (orders : C.Orders o o') : C.Releases o.targetRelease o'.targetRelease :=
  ⟨orders.release.known, orders.release.name, version_target orders⟩

theorem isSome_of_rel {α β : Type} {r : α → β → Prop} {x : Option α} {y : Option β}
    (both : Option.Rel r x y) : y.isSome = x.isSome := by
  cases both <;> rfl

theorem releases_iff {r r' w w' : Release} (first : C.Releases r r') (second : C.Releases w w') :
    r = w ↔ r' = w' := by
  obtain ⟨name, version⟩ := r
  obtain ⟨name', version'⟩ := r'
  obtain ⟨other, version₁⟩ := w
  obtain ⟨other', version₁'⟩ := w'
  obtain rfl : name' = name := first.name
  obtain rfl : other' = other := second.name
  simp only [Release.mk.injEq]
  rw [C.version_iff first.version second.version]

theorem isFor_eq (updates : C.Updates u u') (orders : C.Orders o o') :
    u'.isFor o' = u.isFor o := by
  rw [Bool.eq_iff_iff, Update.isFor, Update.isFor, beq_iff_eq, beq_iff_eq,
    releases_iff updates.release (releases_target orders)]

theorem updates_relocated (updates : C.Updates u u') {path path' : Option Path}
    (paths : Option.Rel C.file path path') : C.Updates (u.relocated path) (u'.relocated path') := by
  cases paths with
  | none => exact updates
  | some files => exact { updates with file := files }

end Updates

section Stretches

variable {d : Device σ} {d' : Device σ'} {o o' : Order} {u u' : Update}

theorem unstaged {t t' : Standing} (standings : C.Standings t t') :
    C.Standings { t with staged := none } { t' with staged := none } :=
  ⟨standings.phase, .none, standings.awaited⟩

theorem unawaited {t t' : Standing} (standings : C.Standings t t') :
    C.Standings { t with awaited := none } { t' with awaited := none } :=
  ⟨standings.phase, standings.staged, .none⟩

theorem cleared {t t' : Standing} (standings : C.Standings t t') :
    C.Standings { t with staged := none, awaited := none }
      { t' with staged := none, awaited := none } :=
  ⟨standings.phase, .none, .none⟩

theorem underWay {t t' : Standing} (standings : C.Standings t t') (updates : C.Updates u u') :
    C.Standings { t with staged := some u } { t' with staged := some u' } :=
  ⟨standings.phase, .some updates, standings.awaited⟩

theorem awaiting {t t' : Standing} (standings : C.Standings t t') {r r' : Release}
    (releases : C.Releases r r') :
    C.Standings { t with awaited := some r } { t' with awaited := some r' } :=
  ⟨standings.phase, standings.staged, .some releases⟩

theorem remarked_nothing : C.Remarked {} {} := ⟨.none, .nil, rfl, .inl ⟨rfl, rfl⟩⟩

theorem tracks_leaveFinished :
    Tracks C sites (fun _ _ => True) (leaveFinished (σ := σ)) (leaveFinished (σ := σ')) := by
  apply Tracks.get_bind
  intro s s' stations
  rw [stations.phase]
  split
  · exact .bind (tracks_enter _) fun _ _ _ => tracks_move fun _ _ => cleared
  · exact tracks_pure trivial

/-- What is dropped when another update takes over. -/
theorem releases_dropped {s : Station σ} {s' : Station σ'} (stations : C.Stations sites s s') :
    Option.Rel C.Releases ((s.staged.map (·.release)).or s.awaited)
      ((s'.staged.map (·.release)).or s'.awaited) := by
  have staged := stations.standing.staged
  have awaited := stations.standing.awaited
  simp only [Station.staged_standing, Station.awaited_standing] at staged awaited
  generalize s.staged = under at staged ⊢
  generalize s'.staged = under' at staged ⊢
  cases staged with
  | none => exact awaited
  | some updates => exact .some updates.release

theorem tracks_giveWayTo (same : d'.profile = d.profile) (incoming incoming' : Release) :
    Tracks C sites (fun _ _ => True) (giveWayTo d incoming) (giveWayTo d' incoming') := by
  have leaves : Tracks C sites (fun _ _ => True) (do enter (σ := σ) .aborted; enter .idle)
      (do enter (σ := σ') .aborted; enter .idle) :=
    .bind (tracks_enter _) fun _ _ _ => tracks_enter _
  apply Tracks.get_bind
  intro s s' stations
  have dropped := releases_dropped stations
  rw [stations.phase]
  dsimp only
  generalize (s.staged.map (·.release)).or s.awaited = under at dropped ⊢
  generalize (s'.staged.map (·.release)).or s'.awaited = under' at dropped ⊢
  split
  · exact tracks_pure trivial
  · have cleared : C.Standings ⟨s.phase, none, none⟩ ⟨s.phase, none, none⟩ := ⟨rfl, .none, .none⟩
    refine .bind (tracks_set (stations.movedTo cleared)) fun _ _ _ => ?_
    cases dropped with
    | none => exact leaves
    | some releases =>
      exact .bind (tracks_note _ (by decide)) fun _ _ _ =>
        .bind (tracks_report d d' same releases _ remarked_nothing) fun _ _ _ => leaves

theorem rel_find? {α β : Type} {r : α → β → Prop} {p : α → Bool} {q : β → Bool} {l : List α}
    {l' : List β} (both : List.Forall₂ r l l') (same : ∀ a b, r a b → q b = p a) :
    Option.Rel r (l.find? p) (l'.find? q) := by
  induction both with
  | nil => exact .none
  | cons first _ ih =>
    rw [List.find?_cons, List.find?_cons, same _ _ first]
    split
    · exact .some first
    · exact ih

/-- A backup is there on both devices, or on neither. -/
theorem backups_backup? (devices : C.Devices sites d d') {site : Site σ} {site' : Site σ'}
    (here : sites site site') {v v' : String} (version : C.version v v') (package : String) :
    Option.Rel C.Backups (d.archive.backup? site.files package v)
      (d'.archive.backup? site'.files package v') := by
  unfold Archive.backup?
  have histories := devices.archives.histories here package
  generalize d.archive.get? site.files package = found at histories ⊢
  generalize d'.archive.get? site'.files package = found' at histories ⊢
  cases histories with
  | none => exact .none
  | some histories => exact histories.get? version

theorem version_nextFallback? (devices : C.Devices sites d d') (orders : C.Orders o o')
    {site : Site σ} {site' : Site σ'} (here : sites site site') :
    Option.Rel C.version (nextFallback? d site.files o) (nextFallback? d' site'.files o') := by
  refine rel_find? orders.rollbackVersions fun v v' version => ?_
  have backup := backups_backup? devices here version o.release.name
  rw [C.version_bne version (version_target orders), orders.release.name]
  congr 1
  generalize d.archive.backup? site.files o.release.name v = found at backup ⊢
  generalize d'.archive.backup? site'.files o.release.name v' = found' at backup ⊢
  cases backup with
  | none => rfl
  | some backups => exact devices.archives.present here backups.file

theorem remarked_failure (devices : C.Devices sites d d') (orders : C.Orders o o')
    {site : Site σ} {site' : Site σ'} (here : sites site site') :
    C.Remarked (failureRemarks d site.files o) (failureRemarks d' site'.files o') := by
  have next := version_nextFallback? devices orders here
  have versions := orders.rollbackVersions
  have empty : o'.rollbackVersions.isEmpty = o.rollbackVersions.isEmpty := by
    generalize o.rollbackVersions = named at versions ⊢
    generalize o'.rollbackVersions = named' at versions ⊢
    cases versions <;> rfl
  unfold failureRemarks
  rw [empty]
  split
  · exact remarked_nothing
  · refine ⟨next, versions, ?_, .inl ⟨rfl, rfl⟩⟩
    dsimp only
    generalize nextFallback? d site.files o = found at next ⊢
    generalize nextFallback? d' site'.files o' = found' at next ⊢
    cases next <;> rfl

theorem tracks_endFailed (devices : C.Devices sites d d') (orders : C.Orders o o')
    (reason reason' : String) :
    Tracks C sites Eq (endFailed d o reason) (endFailed d' o' reason') := by
  refine .bind (tracks_enter _) fun _ _ _ => .bind (tracks_move fun _ _ => unstaged) fun _ _ _ =>
    .bind (tracks_note _ (by decide)) fun _ _ _ => .bind tracks_files fun t t' found => ?_
  obtain ⟨site, site', here, rfl, rfl⟩ := found
  exact .bind (tracks_report d d' devices.profile orders.release _
    (remarked_failure devices orders here)) fun _ _ _ => tracks_pure rfl

theorem tracks_endAborted (same : d'.profile = d.profile) (orders : C.Orders o o') :
    Tracks C sites Eq (endAborted d o) (endAborted d' o') :=
  .bind (tracks_enter _) fun _ _ _ => .bind (tracks_move fun _ _ => unstaged) fun _ _ _ =>
    .bind (tracks_note _ (by decide)) fun _ _ _ =>
      .bind (tracks_report d d' same orders.release _ remarked_nothing) fun _ _ _ =>
        tracks_pure rfl

theorem awaited_iff {x x' : Option Release} {r r' : Release} (both : Option.Rel C.Releases x x')
    (releases : C.Releases r r') : x = some r ↔ x' = some r' := by
  cases both with
  | none => simp
  | some same => simpa using releases_iff same releases

theorem tracks_awaitTransfer :
    Tracks C sites (fun _ _ => True) (awaitTransfer (σ := σ)) (awaitTransfer (σ := σ')) := by
  have unawaits : Tracks C sites (fun _ _ => True)
      (modify fun s => { s with awaited := none } : Course σ Unit)
      (modify fun s => { s with awaited := none } : Course σ' Unit) :=
    tracks_move fun _ _ => unawaited
  apply Tracks.get_bind
  intro s s' stations
  rw [stations.phase]
  split
  · exact .bind (tracks_enter _) fun _ _ _ => unawaits
  · exact unawaits

theorem tracks_takeUp (same : d'.profile = d.profile) (orders : C.Orders o o') :
    Tracks C sites (fun _ _ => True) (takeUp d o) (takeUp d' o') := by
  apply Tracks.get_bind
  intro s s' stations
  have awaiting : awaits s' o' = awaits s o := by
    rw [Bool.eq_iff_iff, awaits, awaits, beq_iff_eq, beq_iff_eq]
    exact (awaited_iff stations.standing.awaited orders.release).symm
  rw [stations.phase, awaiting]
  dsimp only
  split
  · exact .bind (tracks_giveWayTo same _ _) fun _ _ _ => tracks_awaitTransfer
  · exact tracks_awaitTransfer

theorem updates_stagedFor? {s : Station σ} {s' : Station σ'} (stations : C.Stations sites s s')
    (orders : C.Orders o o') : Option.Rel C.Updates (stagedFor? s o) (stagedFor? s' o') := by
  have staged := stations.standing.staged
  simp only [Station.staged_standing] at staged
  unfold stagedFor?
  rw [stations.phase]
  generalize s.staged = under at staged ⊢
  generalize s'.staged = under' at staged ⊢
  split
  · cases staged with
    | none => exact .none
    | some updates =>
      rw [Option.filter_some, Option.filter_some, isFor_eq updates orders, Update.isStaged,
        Update.isStaged, updates.prepared]
      split
      · exact .some updates
      · exact .none
  · exact .none

/-- The same file is planned with, be it offered or taken from the archive. -/
theorem updates_plan? (devices : C.Devices sites d d') (orders : C.Orders o o')
    {site : Site σ} {site' : Site σ'} (here : sites site site') :
    Option.Rel C.Updates (plan? d site.files o) (plan? d' site'.files o') := by
  have base {file file' : Path} (files : C.file file file') :
      C.Updates { Update.ofFile o.targetRelease file with announced := o.release.version }
        { Update.ofFile o'.targetRelease file' with announced := o'.release.version } :=
    ⟨releases_target orders, orders.release.version, files, rfl, rfl, rfl, rfl, rfl, rfl, .none⟩
  have offers := orders.offers (version_target orders)
  have backups := backups_backup? devices here (version_target orders) o.release.name
  have ordered := isSome_of_rel orders.rollbackVersion
  unfold plan?
  rw [ordered, orders.release.name]
  dsimp only
  generalize o.offer? o.target = found at offers ⊢
  generalize o'.offer? o'.target = found' at offers ⊢
  cases offers with
  | some offers =>
    exact .some { base offers.file with
      received := offers.digest
      downloaded := offers.downloaded }
  | none =>
    generalize d.archive.backup? site.files o.release.name o.target = found at backups ⊢
    generalize d'.archive.backup? site'.files o.release.name o'.target = found' at backups ⊢
    dsimp only
    split
    · cases backups with
      | none => exact .none
      | some backups =>
        exact .some { base backups.file with
          received := by dsimp only; rw [backups.digest]
          downloaded := rfl
          isBackup := rfl }
    · exact .none

theorem remarked_rollback {v v' : String} (version : C.version v v') (downloaded : Bool) :
    C.Remarked (rollbackRemarks v downloaded) (rollbackRemarks v' downloaded) :=
  ⟨.some version, .nil, rfl, .inr ⟨v, v', _, version, rfl, rfl⟩⟩

theorem tracks_askForDownload (same : d'.profile = d.profile) (orders : C.Orders o o')
    {v v' : String} (version : C.version v v') :
    Tracks C sites C.Stagings (askForDownload d o v) (askForDownload d' o' v') :=
  .bind (tracks_note _ (by decide)) fun _ _ _ =>
    .bind (tracks_report d d' same orders.release _ (remarked_rollback version false)) fun _ _ _ =>
      .bind (tracks_move fun _ _ => cleared) fun _ _ _ =>
        .bind (tracks_enter _) fun _ _ _ => tracks_pure (.ended _)

theorem tracks_endedFailed (devices : C.Devices sites d d') (orders : C.Orders o o')
    (reason reason' : String) :
    Tracks C sites C.Stagings (do return Readiness.ended (← endFailed d o reason))
      (do return Readiness.ended (← endFailed d' o' reason')) := by
  refine .bind (tracks_endFailed devices orders reason reason') fun status status' same => ?_
  subst same
  exact tracks_pure (.ended _)

/-- A file passes the check on both devices, or on neither. -/
theorem results_checkDigest (devices : C.Devices sites d d') (updates : C.Updates u u')
    {site : Site σ} {site' : Site σ'} (here : sites site site') :
    Parallel (fun _ _ => True) Eq ((checkDigest d u).runOn site.files).1
      ((checkDigest d' u').runOn site'.files).1 := by
  have digests := devices.archives.digest here updates.file
  unfold checkDigest
  rw [devices.profile, updates.received]
  split
  · exact .ok rfl
  · cases u.received with
    | none => exact .ok rfl
    | some expected =>
      dsimp only
      cases Digest.parse? expected with
      | none => exact .error trivial
      | some wanted =>
        dsimp only
        rw [Files.Job.runOn_bind, Files.Job.runOn_bind]
        cases ran : (fileDigest u.file).runOn site.files with
        | mk result t => cases ran' : (fileDigest u'.file).runOn site'.files with
          | mk result' t' =>
            rw [ran, ran'] at digests
            cases digests with
            | error => exact .error trivial
            | ok same =>
              subst same
              dsimp only
              split
              · exact .error trivial
              · exact .ok rfl

theorem tracks_stageFile (devices : C.Devices sites d d') (orders : C.Orders o o')
    (updates : C.Updates u u') :
    Tracks C sites C.Stagings (stageFile d o u) (stageFile d' o' u') := by
  refine .bind (tracks_enter _) fun _ _ _ =>
    .bind (tracks_ask (devices.agents.prepareInstall updates) fun _ _ => .prepareInstall updates)
      fun answer answer' answers => ?_
  cases answers with
  | error => exact tracks_endedFailed devices orders _ _
  | ok prepared =>
    dsimp only
    rw [prepared.status]
    split
    · exact .bind (tracks_enter _) fun _ _ _ => tracks_pure (.ready
        { updates_relocated updates prepared.newPath with prepared := rfl })
    · exact tracks_endedFailed devices orders _ _

theorem tracks_checkAndStage (devices : C.Devices sites d d') (orders : C.Orders o o')
    (updates : C.Updates u u') :
    Tracks C sites C.Stagings (checkAndStage d o u) (checkAndStage d' o' u') := by
  refine .bind (tracks_perform fun site site' here =>
    ⟨results_checkDigest devices updates here, ?_⟩) fun checked checked' both => ?_
  · rw [looks_checkDigest, looks_checkDigest]
    exact here
  · cases both with
    | error => exact tracks_endedFailed devices orders _ _
    | ok => exact tracks_stageFile devices orders updates

theorem tracks_announce (same : d'.profile = d.profile) (orders : C.Orders o o')
    (updates : C.Updates u u') :
    Tracks C sites (fun _ _ => True) (announce d o u) (announce d' o' u') := by
  unfold announce
  rw [isSome_of_rel orders.rollbackVersion, updates.downloaded]
  split
  · exact .bind (tracks_report d d' same orders.release _
      (remarked_rollback updates.release.version _)) fun _ _ _ => tracks_pure trivial
  · exact tracks_pure trivial

theorem tracks_bringFile (devices : C.Devices sites d d') (updates : C.Updates u u') :
    Tracks C sites C.Updates (bringFile d u) (bringFile d' u') := by
  refine .bind (tracks_progress updates.release _ _ _) fun _ _ _ =>
    .bind (tracks_ask (devices.agents.transferFile updates) fun _ _ => .transferFile updates)
      fun answer answer' answers => ?_
  cases answers with
  | error =>
    exact .bind (tracks_note _ (by decide)) fun _ _ _ =>
      tracks_pure { updates with transferred := rfl }
  | ok transferred =>
    dsimp only
    rw [transferred.status]
    split
    · exact tracks_pure
        { updates_relocated updates transferred.newPath with transferred := rfl }
    · exact tracks_pure { updates with transferred := rfl }

theorem tracks_stageBrought (devices : C.Devices sites d d') (orders : C.Orders o o')
    (updates : C.Updates u u') :
    Tracks C sites C.Stagings (stageBrought d o u) (stageBrought d' o' u') := by
  unfold stageBrought
  rw [updates.transferred]
  dsimp only
  split
  · exact tracks_endedFailed devices orders _ _
  · exact .bind (tracks_progress updates.release _ _ _) fun _ _ _ =>
      tracks_checkAndStage devices orders updates

theorem tracks_makeReady (devices : C.Devices sites d d') (orders : C.Orders o o')
    (updates : C.Updates u u') :
    Tracks C sites C.Stagings (makeReady d o u) (makeReady d' o' u') := by
  refine .bind (tracks_announce devices.profile orders updates) fun _ _ _ => ?_
  rw [updates.isBackup]
  split
  · exact tracks_checkAndStage devices orders updates
  · exact .bind (tracks_bringFile devices updates) fun _ _ brought =>
      tracks_stageBrought devices orders brought

theorem tracks_stage (devices : C.Devices sites d d') (orders : C.Orders o o') :
    Tracks C sites C.Stagings (stage d o) (stage d' o') := by
  refine .bind tracks_files fun t t' found => ?_
  obtain ⟨site, site', here, rfl, rfl⟩ := found
  have planned := updates_plan? devices orders here
  have ordered := orders.rollbackVersion
  generalize plan? d site.files o = plan at planned ⊢
  generalize plan? d' site'.files o' = plan' at planned ⊢
  generalize o.rollbackVersion = back at ordered ⊢
  generalize o'.rollbackVersion = back' at ordered ⊢
  cases planned with
  | some updates => exact tracks_makeReady devices orders updates
  | none => cases ordered with
    | some version => exact tracks_askForDownload devices.profile orders version
    | none => exact tracks_endedFailed devices orders _ _

end Stretches

end OtaAgent.Course
