import OtaAgent.Proofs.Course.Renamed

set_option autoImplicit false

namespace OtaAgent.Course

variable {σ σ' : Type} {C : Correspondence} {sites : Site σ → Site σ' → Prop}

section Stretches

variable {d : Device σ} {d' : Device σ'} {o o' : Order} {u u' : Update}

theorem receipts_receiptOf (devices : C.Devices sites d d') (updates : C.Updates u u')
    {site : Site σ} {site' : Site σ'} (here : sites site site') :
    C.Receipts (receiptOf site.files u) (receiptOf site'.files u') where
  known := updates.release.known
  package := updates.release.name
  version := updates.release.version
  received := updates.received
  computed := by
    have digests := devices.archives.digest here updates.file
    unfold receiptOf
    dsimp only
    generalize ((fileDigest u.file).runOn site.files).1 = found at digests ⊢
    generalize ((fileDigest u'.file).runOn site'.files).1 = found' at digests ⊢
    cases digests with
    | error => rfl
    | ok same => rw [same]
  downloaded := updates.downloaded
  file := updates.file

theorem tracks_passOver (level : Level) {code : String} (other : code ≠ "STATE")
    (r r' : Release) {x x' : Except Error Unit}
    (results : Parallel (fun _ _ => True) (fun _ _ => True) x x') :
    Tracks C sites (fun _ _ => True) (passOver (σ := σ) level code r x)
      (passOver (σ := σ') level code r' x') := by
  cases results with
  | ok => exact tracks_pure trivial
  | error => exact tracks_note _ other

theorem tracks_endCompleted (devices : C.Devices sites d d') (orders : C.Orders o o')
    (updates : C.Updates u u') :
    Tracks C sites Eq (endCompleted d o u) (endCompleted d' o' u') := by
  refine .bind tracks_files fun t t' found => ?_
  obtain ⟨site, site', here, rfl, rfl⟩ := found
  have receipts := receipts_receiptOf devices updates here
  have told := devices.agents.postInstall u.name
  have named : u'.name = u.name := updates.release.name
  rw [named]
  exact .bind (tracks_ask (devices.agents.setVersion receipts) fun _ _ => .setVersion receipts)
    fun _ _ recorded => .bind (tracks_passOver _ (by decide) _ _ recorded) fun _ _ _ =>
      .bind (tracks_enter _) fun _ _ _ =>
        .bind (tracks_report d d' devices.profile orders.release _ remarked_nothing) fun _ _ _ =>
          .bind (tracks_ask told fun _ _ => .postInstall _) fun _ _ told =>
            .bind (tracks_passOver _ (by decide) _ _ told) fun _ _ _ =>
              .bind (tracks_enter _) fun _ _ _ => .bind (tracks_note _ (by decide)) fun _ _ _ =>
                tracks_pure rfl

theorem rel_or {α β : Type} {r : α → β → Prop} {x y : Option α} {x' y' : Option β}
    (first : Option.Rel r x x') (second : Option.Rel r y y') :
    Option.Rel r (x.or y) (x'.or y') := by
  cases first with
  | none => exact second
  | some both => exact .some both

theorem rel_filter {α β : Type} {r : α → β → Prop} {p : α → Bool} {q : β → Bool} {x : Option α}
    {x' : Option β} (both : Option.Rel r x x') (same : ∀ a b, r a b → q b = p a) :
    Option.Rel r (x.filter p) (x'.filter q) := by
  cases both with
  | none => exact .none
  | some first =>
    rw [Option.filter_some, Option.filter_some, same _ _ first]
    split
    · exact .some first
    · exact .none

theorem version_fallback? (devices : C.Devices sites d d') (orders : C.Orders o o')
    (updates : C.Updates u u') {previous previous' : Option String}
    (earlier : Option.Rel C.version previous previous') {site : Site σ} {site' : Site σ'}
    (here : sites site site') :
    Option.Rel C.version (fallback? d site.files o u previous)
      (fallback? d' site'.files o' u' previous') := by
  have other (v v' : String) (version : C.version v v') :
      (v' != u'.version) = (v != u.version) :=
    (C.version_bne version updates.release.version).symm
  refine rel_or (rel_or (rel_or updates.fallback ?_) ?_) (rel_filter earlier other)
  · exact rel_filter orders.rollbackVersion other
  · refine rel_find? orders.rollbackVersions fun v v' version => ?_
    have backup := isSome_of_rel (backups_backup? devices here version u.name)
    have named : u'.name = u.name := updates.release.name
    dsimp only
    rw [other v v' version, named, backup]

theorem tracks_fallBack (devices : C.Devices sites d d') (orders : C.Orders o o')
    (updates : C.Updates u u') {previous previous' : Option String}
    (earlier : Option.Rel C.version previous previous') :
    Tracks C sites Eq (fallBack d o u previous) (fallBack d' o' u' previous') := by
  refine .bind tracks_files fun t t' found => ?_
  obtain ⟨site, site', here, rfl, rfl⟩ := found
  have named : u'.name = u.name := updates.release.name
  have targets := version_fallback? devices orders updates earlier here
  generalize fallback? d site.files o u previous = target at targets ⊢
  generalize fallback? d' site'.files o' u' previous' = target' at targets ⊢
  cases targets with
  | none => exact tracks_endFailed devices orders _ _
  | some version =>
    dsimp only
    rw [named]
    refine .bind (tracks_perform fun _ _ here => devices.archives.reinstate here version u.name)
      fun result result' both => ?_
    cases both with
    | error => exact tracks_endFailed devices orders _ _
    | ok =>
      have remarked : C.Remarked
          { rollbackVersion := some _, rollbackVersions := o.rollbackVersions }
          { rollbackVersion := some _, rollbackVersions := o'.rollbackVersions } :=
        ⟨.some version, orders.rollbackVersions, rfl, .inl ⟨rfl, rfl⟩⟩
      exact .bind (tracks_enter _) fun _ _ _ => .bind (tracks_note _ (by decide)) fun _ _ _ =>
        .bind (tracks_report d d' devices.profile orders.release _ remarked) fun _ _ _ =>
          tracks_pure rfl

theorem tracks_verdict {code : String} (other : code ≠ "STATE") (r r' : Release)
    {x x' : Except Error InstallStatus} (answers : Parallel (fun _ _ => True) Eq x x') :
    Tracks C sites Eq (verdict (σ := σ) code r x) (verdict (σ := σ') code r' x') := by
  cases answers with
  | ok same => exact tracks_pure same
  | error => exact .bind (tracks_note _ other) fun _ _ _ => tracks_pure rfl

theorem tracks_install (devices : C.Devices sites d d') (orders : C.Orders o o')
    (updates : C.Updates u u') {previous previous' : Option String}
    (earlier : Option.Rel C.version previous previous') :
    Tracks C sites Eq (install d o u previous) (install d' o' u' previous') := by
  refine .bind (tracks_enter _) fun _ _ _ =>
    .bind (tracks_report d d' devices.profile orders.release _ remarked_nothing) fun _ _ _ =>
      .bind (tracks_progress updates.release _ _ _) fun _ _ _ =>
        .bind (tracks_call (devices.agents.install updates) fun _ _ => .install updates)
          fun installed installed' installs => .bind (tracks_verdict (by decide) _ _
            (installs.answer.mapError fun _ _ _ => trivial))
            fun status status' same => ?_
  have left : C.Updates { installed.update with installed := some status }
      { installed'.update with installed := some status } :=
    { installs.update with installed := rfl }
  subst same
  dsimp only
  split
  · exact tracks_endCompleted devices orders left
  · exact tracks_fallBack devices orders left earlier
  · exact tracks_endAborted devices.profile orders
  · exact tracks_endFailed devices orders _ _

theorem tracks_checkAndInstall (devices : C.Devices sites d d') (orders : C.Orders o o')
    (updates : C.Updates u u') {previous previous' : Option String}
    (earlier : Option.Rel C.version previous previous') :
    Tracks C sites Eq (checkAndInstall d o u previous) (checkAndInstall d' o' u' previous') := by
  refine .bind (tracks_ask (devices.agents.preInstall updates) fun _ _ => .preInstall updates)
    fun answer answer' answers =>
      .bind (tracks_verdict (by decide) _ _ answers) fun status status' same => ?_
  subst same
  split
  · exact tracks_install devices orders updates earlier
  · exact tracks_endAborted devices.profile orders
  · exact tracks_endFailed devices orders _ _

end Stretches

section Events

variable {d : Device σ} {d' : Device σ'} {o o' : Order} {r r' : Release}

theorem tracks_askConsent (devices : C.Devices sites d d') (releases : C.Releases r r') :
    Tracks C sites Eq (askConsent d r) (askConsent d' r') := by
  refine .bind (tracks_ask (devices.agents.confirmDownload releases)
    fun _ _ => .confirmDownload releases) fun answer answer' answers => ?_
  cases answers with
  | ok same => exact tracks_pure same
  | error => exact .bind (tracks_note _ (by decide)) fun _ _ _ => tracks_pure rfl

theorem tracks_abideBy (releases : C.Releases r r') (status : DownloadStatus) :
    Tracks C sites (fun _ _ => True) (abideBy (σ := σ) r status)
      (abideBy (σ := σ') r' status) := by
  have awaits : Tracks C sites (fun _ _ => True)
      (modify fun s => { s with awaited := some r } : Course σ Unit)
      (modify fun s => { s with awaited := some r' } : Course σ' Unit) :=
    tracks_move fun _ _ standings => awaiting standings releases
  cases status with
  | consent => exact .bind (tracks_enter _) fun _ _ _ => awaits
  | denied => exact .bind (tracks_enter _) fun _ _ _ => tracks_move fun _ _ => unawaited
  | postponed => exact awaits

theorem tracks_consider (devices : C.Devices sites d d') (releases : C.Releases r r') :
    Tracks C sites Eq (consider d r) (consider d' r') := by
  refine .bind (tracks_enter _) fun _ _ _ => .bind (tracks_askConsent devices releases)
    fun status status' same => ?_
  subst same
  exact .bind (tracks_abideBy releases status) fun _ _ _ =>
    .bind (tracks_note _ (by decide)) fun _ _ _ =>
      .bind (tracks_report d d' devices.profile releases _ remarked_nothing) fun _ _ _ =>
        tracks_pure rfl

theorem tracks_onOffer (devices : C.Devices sites d d') (releases : C.Releases r r') :
    Tracks C sites Eq (onOffer d r) (onOffer d' r') := by
  refine .bind tracks_leaveFinished fun _ _ _ => .get_bind fun s s' stations => ?_
  have agreed : s'.awaited = some r' ↔ s.awaited = some r :=
    (awaited_iff stations.standing.awaited releases).symm
  simp only [stations.phase, agreed]
  split
  · exact .bind (tracks_note _ (by decide)) fun _ _ _ =>
      .bind (tracks_report d d' devices.profile releases _ remarked_nothing) fun _ _ _ =>
        tracks_pure rfl
  · split
    · exact .bind (tracks_giveWayTo devices.profile _ _) fun _ _ _ =>
        tracks_consider devices releases
    · exact tracks_consider devices releases

theorem tracks_onPrepare (devices : C.Devices sites d d') (orders : C.Orders o o') :
    Tracks C sites Eq (onPrepare d o) (onPrepare d' o') := by
  refine .bind tracks_leaveFinished fun _ _ _ => .get_bind fun s s' stations => ?_
  rw [isSome_of_rel (updates_stagedFor? stations orders)]
  split
  · exact .bind (tracks_note _ (by decide)) fun _ _ _ =>
      .bind (tracks_report d d' devices.profile orders.release _ remarked_nothing) fun _ _ _ =>
        tracks_pure rfl
  · refine .bind (tracks_takeUp devices.profile orders) fun _ _ _ =>
      .bind (tracks_stage devices orders) fun result result' stagings => ?_
    cases stagings with
    | ended status => exact tracks_pure rfl
    | ready updates =>
      exact .bind (tracks_note _ (by decide)) fun _ _ _ =>
        .bind (tracks_move fun _ _ standings => underWay standings updates) fun _ _ _ =>
          .bind (tracks_report d d' devices.profile orders.release _ remarked_nothing)
            fun _ _ _ => tracks_pure rfl

theorem version_current? (archives : C.Archives sites d d') {site : Site σ} {site' : Site σ'}
    (here : sites site site') (package : String) :
    Option.Rel C.version (d.archive.current? site.files package)
      (d'.archive.current? site'.files package) := by
  have histories := archives.histories here package
  unfold Archive.current?
  generalize d.archive.get? site.files package = found at histories ⊢
  generalize d'.archive.get? site'.files package = found' at histories ⊢
  cases histories with
  | none => exact .none
  | some histories => exact .some histories.current

theorem tracks_onInstall (devices : C.Devices sites d d') (orders : C.Orders o o') :
    Tracks C sites Eq (onInstall d o) (onInstall d' o') := by
  refine .bind tracks_leaveFinished fun _ _ _ => .bind tracks_files fun t t' found =>
    .get_bind fun s s' stations => ?_
  obtain ⟨site, site', here, rfl, rfl⟩ := found
  have earlier := version_current? devices.archives here o.release.name
  have staged := updates_stagedFor? stations orders
  rw [orders.release.name]
  generalize stagedFor? s o = under at staged ⊢
  generalize stagedFor? s' o' = under' at staged ⊢
  cases staged with
  | some updates =>
    exact .bind (tracks_move fun _ _ => unstaged) fun _ _ _ =>
      tracks_checkAndInstall devices orders updates earlier
  | none =>
    refine .bind (tracks_takeUp devices.profile orders) fun _ _ _ =>
      .bind (tracks_stage devices orders) fun result result' stagings => ?_
    cases stagings with
    | ended status => exact tracks_pure rfl
    | ready updates => exact tracks_checkAndInstall devices orders updates earlier

theorem tracks_onQuery (devices : C.Devices sites d d') (package : String)
    (replyId : Option String) :
    Tracks C sites (fun _ _ => True) (onQuery d package replyId) (onQuery d' package replyId) := by
  refine .bind (tracks_ask (devices.agents.getVersion package) fun _ _ => .getVersion package)
    fun answer answer' answers => ?_
  cases answers with
  | error => exact .bind (tracks_note _ (by decide)) fun _ _ _ => tracks_pure trivial
  | ok versions =>
    refine .bind tracks_files fun t t' found => .bind (tracks_note _ (by decide)) fun _ _ _ => ?_
    obtain ⟨site, site', here, rfl, rfl⟩ := found
    rw [packageReport_eq, packageReport_eq, devices.profile]
    exact .bind (tracks_send (.reply replyId d.profile package versions
      (devices.archives.histories here package))) fun _ _ _ => tracks_pure trivial

/-- Every event comes to the same status on both devices. -/
theorem tracks_answer (devices : C.Devices sites d d') {e e' : Event} (events : C.Events e e') :
    Tracks C sites Eq (answer d e) (answer d' e') := by
  cases events with
  | query handler package replyId =>
    exact .bind (tracks_onQuery devices package replyId) fun _ _ _ => tracks_pure rfl
  | offered handler releases =>
    exact .bind (tracks_onOffer devices releases) fun _ _ same => tracks_pure (same ▸ rfl)
  | prepare orders =>
    exact .bind (tracks_onPrepare devices orders) fun _ _ same => tracks_pure (same ▸ rfl)
  | install orders =>
    exact .bind (tracks_onInstall devices orders) fun _ _ same => tracks_pure (same ▸ rfl)
  | confirmed handler releases =>
    exact .bind (tracks_note _ (by decide)) fun _ _ _ => tracks_pure rfl
  | downloading handler releases downloadedBytes totalBytes =>
    exact .bind (tracks_note _ (by decide)) fun _ _ _ => tracks_pure rfl
  | unhandled kind => exact .bind (tracks_note _ (by decide)) fun _ _ _ => tracks_pure rfl

theorem tracks_route (devices : C.Devices sites d d') {e e' : Event} (events : C.Events e e') :
    Tracks C sites (fun _ _ => True) (route d e) (route d' e') := by
  have dealt : Tracks C sites (fun _ _ => True) (deal d e) (deal d' e') := by
    rw [deal_eq_answer, deal_eq_answer]
    exact .bind (tracks_answer devices events) fun _ _ _ => tracks_pure trivial
  have addressed : e'.handler? = e.handler? := by
    cases events with
    | prepare orders | install orders => exact congrArg some orders.handler
    | _ => rfl
  unfold route
  rw [addressed, devices.profile]
  split
  · split
    · exact tracks_note _ (by decide)
    · exact dealt
  · exact dealt

end Events

end OtaAgent.Course
