import OtaAgent.Proofs.Course.Dealing

set_option autoImplicit false

namespace OtaAgent

variable {σ α β : Type}

/-- The call of a hook that is told of every arrival, be it dealt with or not. -/
def HookCall.isNotice : HookCall → Bool
  | .presence .. | .onMessage .. => true
  | _ => false

namespace Station

def movedTo (s : Station σ) (t : Standing) : Station σ :=
  { s with phase := t.phase, staged := t.staged, awaited := t.awaited }

/-- Stations that are alike have the same site and stand at the same place, and stay alike when the
same act follows from both. -/
structure Congruence (alike : Station σ → Station σ → Prop) : Prop where
  site {s twin : Station σ} (like : alike s twin) : s.site = twin.site
  standing {s twin : Station σ} (like : alike s twin) : s.standing = twin.standing
  noted {s twin : Station σ} (like : alike s twin) (e : LogEntry) : alike (s.noted e) (twin.noted e)
  offered {s twin : Station σ} (like : alike s twin) (v : Json) :
    alike (s.offered v) (twin.offered v)
  called {s twin : Station σ} (like : alike s twin) {hook : HookCall}
    (unnoticed : hook.isNotice = false) (site : Site σ) :
    alike (s.called hook site) (twin.called hook site)
  changed {s twin : Station σ} (like : alike s twin) (site : Site σ) :
    alike { s with site } { twin with site }
  movedTo {s twin : Station σ} (like : alike s twin) (t : Standing) :
    alike (s.movedTo t) (twin.movedTo t)

section Congruence

variable {alike : Station σ → Station σ → Prop} {s twin : Station σ}

theorem Congruence.phase (congruence : Congruence alike) (like : alike s twin) :
    s.phase = twin.phase :=
  congrArg Standing.phase (congruence.standing like)

theorem Congruence.staged (congruence : Congruence alike) (like : alike s twin) :
    s.staged = twin.staged :=
  congrArg Standing.staged (congruence.standing like)

theorem Congruence.awaited (congruence : Congruence alike) (like : alike s twin) :
    s.awaited = twin.awaited :=
  congrArg Standing.awaited (congruence.standing like)

/-- Where a bus has made the same of all envelopes so far, it makes the same of the next one. -/
theorem offered_of_outbox (outbox : s.outbox = twin.outbox)
    (sent : ∀ outbox, alike { s with outbox } { twin with outbox })
    (noted : ∀ {s twin : Station σ}, alike s twin → ∀ e, alike (s.noted e) (twin.noted e))
    (v : Json) : alike (s.offered v) (twin.offered v) := by
  unfold offered
  rw [outbox]
  cases twin.outbox.send v with
  | mk refused outbox =>
    cases refused with
    | none => exact sent outbox
    | some e => exact noted (sent outbox) _

end Congruence

end Station

namespace Course

/-- From stations that are alike, both stretches come to the same answer or the same error, and to
stations that are alike. -/
def Couples (alike : Station σ → Station σ → Prop) (c twin : Course σ α) : Prop :=
  ∀ s s' : Station σ, alike s s' →
    (runOn c s).1 = (runOn twin s').1 ∧ alike (runOn c s).2 (runOn twin s').2

section Rules

variable {alike : Station σ → Station σ → Prop} {c twin : Course σ α}

theorem couples_pure (a : α) : Couples alike (pure a) (pure a) := fun _ _ like => ⟨rfl, like⟩

theorem couples_throw (e : Error) : Couples alike (throw e : Course σ α) (throw e) :=
  fun _ _ like => ⟨rfl, like⟩

theorem Couples.bind {f g : α → Course σ β} (first : Couples alike c twin)
    (rest : ∀ a, Couples alike (f a) (g a)) : Couples alike (c >>= f) (twin >>= g) := by
  intro s s' like
  obtain ⟨answers, stations⟩ := first s s' like
  rw [runOn_bind, runOn_bind]
  cases ran : runOn c s with
  | mk answer next => cases ran' : runOn twin s' with
    | mk answer' next' =>
      rw [ran, ran'] at answers stations
      obtain rfl : answer = answer' := answers
      cases answer with
      | ok a => exact rest a next next' stations
      | error e => exact ⟨rfl, stations⟩

theorem Couples.get_bind {f g : Station σ → Course σ α}
    (rest : ∀ s s' : Station σ, alike s s' → Couples alike (f s) (g s')) :
    Couples alike (get >>= f) (get >>= g) :=
  fun s s' like => rest s s' like s s' like

theorem couples_set {next next' : Station σ} (like : alike next next') :
    Couples alike (set next : Course σ Unit) (set next') := fun _ _ _ => ⟨rfl, like⟩

end Rules

theorem runOn_send (v : Json) (s : Station σ) :
    runOn (send v) s = (.ok (s.outbox.send v).1.isNone, s.offered v) := by
  have sends : Ensures (send v) s fun took after =>
      took = (s.outbox.send v).1.isNone ∧ after = s.offered v :=
    (ensures_send ..).mpr ⟨rfl, rfl⟩
  obtain ⟨took, after, ran, rfl, rfl⟩ := sends.exists_ok
  exact ran

theorem runOn_call (hook : Deed σ α) (trace : α → HookCall) (s : Station σ) :
    runOn (call hook trace) s =
      (.ok (hook s.site).1, s.called (trace (hook s.site).1) (hook s.site).2) := rfl

section Acts

variable {alike : Station σ → Station σ → Prop} (congruence : Station.Congruence alike)

include congruence

theorem couples_note (level : Level) (code message : String) :
    Couples alike (note level code message) (note level code message) :=
  fun _ _ like => ⟨rfl, congruence.noted like _⟩

theorem couples_move (f : Standing → Standing) :
    Couples alike (modify fun s => s.movedTo (f s.standing) : Course σ Unit)
      (modify fun s => s.movedTo (f s.standing)) := by
  intro s s' like
  refine ⟨rfl, ?_⟩
  change alike (s.movedTo (f s.standing)) (s'.movedTo (f s'.standing))
  rw [congruence.standing like]
  exact congruence.movedTo like _

/-- An envelope may be taken on one side and refused on the other. -/
theorem couples_send_bind {f g : Bool → Course σ α} {v : Json}
    (rest : ∀ took took', Couples alike (f took) (g took')) :
    Couples alike (send v >>= f) (send v >>= g) := by
  intro s s' like
  rw [runOn_bind, runOn_bind, runOn_send, runOn_send]
  exact rest _ _ _ _ (congruence.offered like v)

theorem couples_files : Couples alike files files := by
  apply Couples.get_bind
  intro s s' like
  rw [congruence.site like]
  exact couples_pure _

theorem couples_perform (job : FileJob α) : Couples alike (perform job) (perform job) := by
  apply Couples.get_bind
  intro s s' like
  rw [congruence.site like]
  exact .bind (couples_set (congruence.changed like _)) fun _ => couples_pure _

theorem couples_progress (release : Release) (stage : Stage) (percent : Nat)
    (indeterminate : Bool) :
    Couples alike (progress release stage percent indeterminate)
      (progress release stage percent indeterminate) := by
  unfold progress reportProgress
  split
  · exact couples_note congruence _ _ _
  · rw [bind_assoc]
    exact couples_send_bind congruence fun _ _ => couples_pure ()

theorem couples_enter (target : Phase) : Couples alike (enter target) (enter target) := by
  apply Couples.get_bind
  intro s s' like
  rw [congruence.phase like]
  split
  · exact couples_throw _
  · rename_i next _
    exact .bind (couples_note congruence _ _ _) fun _ =>
      couples_move congruence fun t => { t with phase := next }

theorem couples_call (hook : Deed σ α) {trace : α → HookCall}
    (unnoticed : ∀ result, (trace result).isNotice = false) :
    Couples alike (call hook trace) (call hook trace) := by
  intro s s' like
  rw [runOn_call, runOn_call, congruence.site like]
  exact ⟨rfl, congruence.called like (unnoticed _) _⟩

theorem couples_ask (name : String) (hook : Hook σ α) {trace : Answer α → HookCall}
    (unnoticed : ∀ answer, (trace answer).isNotice = false) :
    Couples alike (ask name hook trace) (ask name hook trace) :=
  .bind (couples_call congruence hook unnoticed) fun _ => couples_pure _

theorem couples_report_bind (d : Device σ) {release : Release} {status : Status}
    {remarks : Remarks} {f g : Bool → Course σ α}
    (rest : ∀ took took', Couples alike (f took) (g took')) :
    Couples alike (report d release status remarks >>= f)
      (report d release status remarks >>= g) := by
  unfold report
  rw [bind_assoc, bind_assoc]
  exact .bind (couples_note congruence _ _ _) fun _ => couples_send_bind congruence rest

end Acts

section Stretches

variable {alike : Station σ → Station σ → Prop} (congruence : Station.Congruence alike)
  (d : Device σ) (order : Order) (u : Update)

include congruence

theorem couples_leaveFinished : Couples alike (leaveFinished (σ := σ)) leaveFinished := by
  apply Couples.get_bind
  intro s s' like
  rw [congruence.phase like]
  split
  · exact .bind (couples_enter congruence _) fun _ =>
      couples_move congruence fun t => { t with staged := none, awaited := none }
  · exact couples_pure ()

theorem couples_giveWayTo (incoming : Release) :
    Couples alike (giveWayTo d incoming) (giveWayTo d incoming) := by
  have leaves : Couples alike (do enter (σ := σ) .aborted; enter .idle)
      (do enter .aborted; enter .idle) :=
    .bind (couples_enter congruence _) fun _ => couples_enter congruence _
  apply Couples.get_bind
  intro s s' like
  rw [congruence.phase like, congruence.staged like, congruence.awaited like]
  split
  · exact couples_pure ()
  · refine .bind (couples_set (congruence.movedTo like ⟨s'.phase, none, none⟩)) fun _ => ?_
    split
    · exact .bind (couples_note congruence _ _ _) fun _ =>
        couples_report_bind congruence d fun _ _ => leaves
    · exact leaves

theorem couples_endFailed (reason : String) :
    Couples alike (endFailed d order reason) (endFailed d order reason) :=
  .bind (couples_enter congruence _) fun _ =>
    .bind (couples_move congruence fun t => { t with staged := none }) fun _ =>
      .bind (couples_note congruence _ _ _) fun _ => .bind (couples_files congruence) fun _ =>
        couples_report_bind congruence d fun _ _ => couples_pure _

theorem couples_endAborted : Couples alike (endAborted d order) (endAborted d order) :=
  .bind (couples_enter congruence _) fun _ =>
    .bind (couples_move congruence fun t => { t with staged := none }) fun _ =>
      .bind (couples_note congruence _ _ _) fun _ =>
        couples_report_bind congruence d fun _ _ => couples_pure _

theorem couples_awaitTransfer : Couples alike (awaitTransfer (σ := σ)) awaitTransfer := by
  have unawaits := couples_move congruence fun t => { t with awaited := none }
  apply Couples.get_bind
  intro s s' like
  rw [congruence.phase like]
  split
  · exact .bind (couples_enter congruence _) fun _ => unawaits
  · exact unawaits

theorem couples_takeUp : Couples alike (takeUp d order) (takeUp d order) := by
  -- Which way it goes is told by the standing, in which the two agree.
  apply Couples.get_bind
  intro s s' like
  unfold awaits
  rw [congruence.phase like, congruence.awaited like]
  dsimp only
  split
  · exact .bind (couples_giveWayTo congruence d _) fun _ => couples_awaitTransfer congruence
  · exact couples_awaitTransfer congruence

theorem couples_announce : Couples alike (announce d order u) (announce d order u) := by
  unfold announce
  split
  · exact couples_report_bind congruence d fun _ _ => couples_pure ()
  · exact couples_pure ()

theorem couples_askForDownload (version : String) :
    Couples alike (askForDownload d order version) (askForDownload d order version) :=
  .bind (couples_note congruence _ _ _) fun _ => couples_report_bind congruence d fun _ _ =>
    .bind (couples_move congruence fun t => { t with staged := none, awaited := none }) fun _ =>
      .bind (couples_enter congruence _) fun _ => couples_pure _

theorem couples_endedFailed (reason : String) :
    Couples alike (do return Readiness.ended (← endFailed d order reason))
      (do return Readiness.ended (← endFailed d order reason)) :=
  .bind (couples_endFailed congruence d order reason) fun _ => couples_pure _

theorem couples_abideBy (release : Release) (status : DownloadStatus) :
    Couples alike (abideBy (σ := σ) release status) (abideBy release status) := by
  have awaits := couples_move congruence fun t => { t with awaited := some release }
  cases status with
  | consent => exact .bind (couples_enter congruence _) fun _ => awaits
  | denied =>
    exact .bind (couples_enter congruence _) fun _ =>
      couples_move congruence fun t => { t with awaited := none }
  | postponed => exact awaits

theorem couples_passOver (level : Level) (code : String) (release : Release)
    (result : Except Error Unit) :
    Couples alike (passOver level code release result) (passOver level code release result) := by
  cases result with
  | ok _ => exact couples_pure ()
  | error e => exact couples_note congruence _ _ _

theorem couples_verdict (code : String) (release : Release)
    (answer : Except Error InstallStatus) :
    Couples alike (verdict code release answer) (verdict code release answer) := by
  cases answer with
  | ok status => exact couples_pure status
  | error e => exact .bind (couples_note congruence _ _ _) fun _ => couples_pure _

variable (previous : Option String)

theorem couples_fallBack :
    Couples alike (fallBack d order u previous) (fallBack d order u previous) := by
  apply Couples.bind (couples_files congruence)
  intro t
  split
  · exact couples_endFailed congruence d order _
  · apply Couples.bind (couples_perform congruence _)
    intro result
    cases result with
    | error e => exact couples_endFailed congruence d order _
    | ok _ =>
      exact .bind (couples_enter congruence _) fun _ => .bind (couples_note congruence _ _ _)
        fun _ => couples_report_bind congruence d fun _ _ => couples_pure _

end Stretches

theorem stagedFor?_of_alike {alike : Station σ → Station σ → Prop} {s s' : Station σ}
    (congruence : Station.Congruence alike) (like : alike s s') (order : Order) :
    stagedFor? s order = stagedFor? s' order := by
  rw [stagedFor?, stagedFor?, congruence.phase like, congruence.staged like]

/-- With `agent` in the place of the agent of `d`, the stretches that call a hook come to the
same. -/
structure Counterpart (alike : Station σ → Station σ → Prop) (d : Device σ) (agent : Agent σ) :
    Prop where
  askConsent (release : Release) :
    Couples alike (askConsent d release) (askConsent { d with agent } release)
  bringFile (u : Update) : Couples alike (bringFile d u) (bringFile { d with agent } u)
  stageFile (order : Order) (u : Update) :
    Couples alike (stageFile d order u) (stageFile { d with agent } order u)
  checkAndInstall (order : Order) (u : Update) (previous : Option String) :
    Couples alike (checkAndInstall d order u previous)
      (checkAndInstall { d with agent } order u previous)
  onQuery (package : String) (replyId : Option String) :
    Couples alike (onQuery d package replyId) (onQuery { d with agent } package replyId)

namespace Counterpart

variable {alike : Station σ → Station σ → Prop} {d : Device σ} {agent : Agent σ}
  (congruence : Station.Congruence alike) (same : Counterpart alike d agent) (order : Order)

include congruence same

theorem checkAndStage (u : Update) :
    Couples alike (checkAndStage d order u) (checkAndStage { d with agent } order u) := by
  apply Couples.bind (couples_perform congruence _)
  intro checked
  cases checked with
  | ok _ => exact same.stageFile order u
  | error e => exact couples_endedFailed congruence d order _

theorem stageBrought (u : Update) :
    Couples alike (stageBrought d order u) (stageBrought { d with agent } order u) := by
  unfold Course.stageBrought
  dsimp only
  split
  · exact couples_endedFailed congruence d order _
  · exact .bind (couples_progress congruence _ _ _ _) fun _ =>
      same.checkAndStage congruence order u

theorem makeReady (u : Update) :
    Couples alike (makeReady d order u) (makeReady { d with agent } order u) := by
  apply Couples.bind (couples_announce congruence d order u)
  intro _
  split
  · exact same.checkAndStage congruence order u
  · exact .bind (same.bringFile u) fun u => same.stageBrought congruence order u

theorem stage : Couples alike (stage d order) (stage { d with agent } order) := by
  have plans (t : Files.Tree) : plan? { d with agent } t order = plan? d t order := rfl
  apply Couples.bind (couples_files congruence)
  intro t
  rw [plans]
  split
  · exact same.makeReady congruence order _
  · exact couples_askForDownload congruence d order _
  · exact couples_endedFailed congruence d order _

theorem consider (release : Release) :
    Couples alike (consider d release) (consider { d with agent } release) :=
  .bind (couples_enter congruence _) fun _ => .bind (same.askConsent release) fun status =>
    .bind (couples_abideBy congruence release status) fun _ =>
      .bind (couples_note congruence _ _ _) fun _ =>
        couples_report_bind congruence d fun _ _ => couples_pure status

theorem onOffer (release : Release) :
    Couples alike (onOffer d release) (onOffer { d with agent } release) := by
  refine .bind (couples_leaveFinished congruence) fun _ => .get_bind fun s s' like => ?_
  rw [congruence.phase like, congruence.awaited like]
  split
  · exact .bind (couples_note congruence _ _ _) fun _ =>
      couples_report_bind congruence d fun _ _ => couples_pure _
  · dsimp only
    split
    · exact .bind (couples_giveWayTo congruence d release) fun _ =>
        same.consider congruence release
    · exact same.consider congruence release

theorem onPrepare : Couples alike (onPrepare d order) (onPrepare { d with agent } order) := by
  refine .bind (couples_leaveFinished congruence) fun _ => .get_bind fun s s' like => ?_
  rw [stagedFor?_of_alike congruence like]
  split
  · exact .bind (couples_note congruence _ _ _) fun _ =>
      couples_report_bind congruence d fun _ _ => couples_pure _
  · refine .bind (couples_takeUp congruence d order) fun _ =>
      .bind (same.stage congruence order) fun result => ?_
    cases result with
    | ended status => exact couples_pure status
    | ready update =>
      exact .bind (couples_note congruence _ _ _) fun _ =>
        .bind (couples_move congruence fun t => { t with staged := some update }) fun _ =>
          couples_report_bind congruence d fun _ _ => couples_pure _

theorem onInstall : Couples alike (onInstall d order) (onInstall { d with agent } order) := by
  refine .bind (couples_leaveFinished congruence) fun _ => .bind (couples_files congruence)
    fun t => .get_bind fun s s' like => ?_
  rw [stagedFor?_of_alike congruence like]
  cases stagedFor? s' order with
  | some update =>
    exact .bind (couples_move congruence fun t => { t with staged := none }) fun _ =>
      same.checkAndInstall order update _
  | none =>
    refine .bind (couples_takeUp congruence d order) fun _ =>
      .bind (same.stage congruence order) fun result => ?_
    cases result with
    | ended status => exact couples_pure status
    | ready update => exact same.checkAndInstall order update _

/-- Every event comes to the same. -/
theorem answer (e : Event) : Couples alike (answer d e) (answer { d with agent } e) := by
  cases e with
  | query handler package replyId =>
    exact .bind (same.onQuery package replyId) fun _ => couples_pure none
  | offered handler release =>
    exact .bind (same.onOffer congruence release) fun _ => couples_pure _
  | prepare order => exact .bind (same.onPrepare congruence order) fun _ => couples_pure _
  | install order => exact .bind (same.onInstall congruence order) fun _ => couples_pure _
  | confirmed handler release =>
    exact .bind (couples_note congruence _ _ _) fun _ => couples_pure none
  | downloading handler release downloadedBytes totalBytes =>
    exact .bind (couples_note congruence _ _ _) fun _ => couples_pure none
  | unhandled kind => exact .bind (couples_note congruence _ _ _) fun _ => couples_pure none

theorem route (e : Event) : Couples alike (route d e) (route { d with agent } e) := by
  have dealt : Couples alike (deal d e) (deal { d with agent } e) := by
    rw [deal_eq_answer, deal_eq_answer]
    exact .bind (same.answer congruence e) fun _ => couples_pure ()
  unfold Course.route
  split
  · dsimp only
    split
    · exact couples_note congruence _ _ _
    · exact dealt
  · exact dealt

end Counterpart

section Itself

variable {alike : Station σ → Station σ → Prop} (congruence : Station.Congruence alike)
  (d : Device σ) (order : Order) (u : Update)

include congruence

theorem couples_askConsent (release : Release) :
    Couples alike (askConsent d release) (askConsent d release) := by
  apply Couples.bind (couples_ask congruence _ _ fun _ => rfl)
  intro answer
  cases answer with
  | ok status => exact couples_pure status
  | error e => exact .bind (couples_note congruence _ _ _) fun _ => couples_pure _

theorem couples_bringFile : Couples alike (bringFile d u) (bringFile d u) := by
  refine .bind (couples_progress congruence _ _ _ _) fun _ =>
    .bind (couples_ask congruence _ _ fun _ => rfl) fun answer => ?_
  cases answer with
  | ok outcome => exact couples_pure _
  | error e => exact .bind (couples_note congruence _ _ _) fun _ => couples_pure _

theorem couples_stageFile : Couples alike (stageFile d order u) (stageFile d order u) := by
  refine .bind (couples_enter congruence _) fun _ =>
    .bind (couples_ask congruence _ _ fun _ => rfl) fun answer => ?_
  cases answer with
  | error e => exact couples_endedFailed congruence d order _
  | ok outcome =>
    dsimp only
    split
    · exact .bind (couples_enter congruence _) fun _ => couples_pure _
    · exact couples_endedFailed congruence d order _

theorem couples_endCompleted :
    Couples alike (endCompleted d order u) (endCompleted d order u) :=
  .bind (couples_files congruence) fun _ =>
    .bind (couples_ask congruence _ _ fun _ => rfl) fun recorded =>
      .bind (couples_passOver congruence _ _ _ recorded) fun _ =>
        .bind (couples_enter congruence _) fun _ =>
          couples_report_bind congruence d fun _ _ =>
            .bind (couples_ask congruence _ _ fun _ => rfl) fun told =>
              .bind (couples_passOver congruence _ _ _ told) fun _ =>
                .bind (couples_enter congruence _) fun _ =>
                  .bind (couples_note congruence _ _ _) fun _ => couples_pure _

variable (previous : Option String)

theorem couples_install :
    Couples alike (install d order u previous) (install d order u previous) := by
  refine .bind (couples_enter congruence _) fun _ => couples_report_bind congruence d fun _ _ =>
    .bind (couples_progress congruence _ _ _ _) fun _ =>
      .bind (couples_call congruence _ fun _ => rfl) fun installed =>
        .bind (couples_verdict congruence _ _ _) fun status => ?_
  dsimp only
  split
  · exact couples_endCompleted congruence d order _
  · exact couples_fallBack congruence d order _ previous
  · exact couples_endAborted congruence d order
  · exact couples_endFailed congruence d order _

theorem couples_checkAndInstall :
    Couples alike (checkAndInstall d order u previous) (checkAndInstall d order u previous) := by
  refine .bind (couples_ask congruence _ _ fun _ => rfl) fun answer =>
    .bind (couples_verdict congruence _ _ answer) fun status => ?_
  split
  · exact couples_install congruence d order u previous
  · exact couples_endAborted congruence d order
  · exact couples_endFailed congruence d order _

theorem couples_onQuery (package : String) (replyId : Option String) :
    Couples alike (onQuery d package replyId) (onQuery d package replyId) := by
  refine .bind (couples_ask congruence _ _ fun _ => rfl) fun answer => ?_
  cases answer with
  | error e => exact .bind (couples_note congruence _ _ _) fun _ => couples_pure none
  | ok version =>
    exact .bind (couples_files congruence) fun _ => .bind (couples_note congruence _ _ _) fun _ =>
      couples_send_bind congruence fun _ _ => couples_pure _

/-- An agent does the same from stations that are alike. -/
theorem counterpart_self : Counterpart alike d d.agent where
  askConsent := couples_askConsent congruence d
  bringFile := couples_bringFile congruence d
  stageFile := couples_stageFile congruence d
  checkAndInstall := couples_checkAndInstall congruence d
  onQuery := couples_onQuery congruence d

end Itself

end Course
end OtaAgent
