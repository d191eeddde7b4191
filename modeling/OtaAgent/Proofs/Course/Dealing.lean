import OtaAgent.Proofs.Course.Installing

set_option autoImplicit false

namespace OtaAgent

variable {σ : Type}

namespace Standing

/-- The standings that an event leaves. -/
inductive AtRest : Standing → Prop
  | idle : AtRest ⟨.idle, none, none⟩
  | postponed (release : Release) : AtRest ⟨.confirmDownload, none, some release⟩
  | agreed (release : Release) : AtRest ⟨.awaitingTransfer, none, some release⟩
  | staged (u : Update) (ready : u.prepared = some .ready) : AtRest ⟨.preInstall, some u, none⟩
  | finished (phase : Phase) (terminal : phase.isTerminal = true) : AtRest ⟨phase, none, none⟩

def resumed (t : Standing) : Standing := if t.phase.isTerminal then ⟨.idle, none, none⟩ else t

/-- The standings from which an update goes on, or another one begins. -/
inductive Open : Standing → Prop
  | idle : Open ⟨.idle, none, none⟩
  | postponed (release : Release) : Open ⟨.confirmDownload, none, some release⟩
  | agreed (release : Release) : Open ⟨.awaitingTransfer, none, some release⟩
  | staged (u : Update) (ready : u.prepared = some .ready) : Open ⟨.preInstall, some u, none⟩

theorem Open.agreed_iff {t : Standing} {release : Release} (opened : t.Open) :
    t.phase = .awaitingTransfer ∧ t.awaited = some release ↔
      t = ⟨.awaitingTransfer, none, some release⟩ := by
  cases opened <;> simp

theorem Open.eq_of_staged {t : Standing} {u : Update} (opened : t.Open)
    (found : t.staged = some u) :
    t = ⟨.preInstall, some u, none⟩ := by
  cases opened with
  | idle | postponed release | agreed release => simp at found
  | staged other ready =>
    obtain rfl : other = u := by simpa using found
    rfl

theorem Open.atRest {t : Standing} (opened : t.Open) : t.AtRest := by
  cases opened with
  | idle => exact .idle
  | postponed release => exact .postponed release
  | agreed release => exact .agreed release
  | staged u ready => exact .staged u ready

theorem AtRest.open_resumed {t : Standing} (rest : t.AtRest) : t.resumed.Open := by
  cases rest with
  | idle => exact .idle
  | postponed release => exact .postponed release
  | agreed release => exact .agreed release
  | staged u ready => exact .staged u ready
  | finished phase terminal =>
    rw [resumed, if_pos terminal]
    exact .idle

def afterOffer (release : Release) : DownloadStatus → Standing
  | .consent => ⟨.awaitingTransfer, none, some release⟩
  | .denied => ⟨.idle, none, none⟩
  | .postponed => ⟨.confirmDownload, none, some release⟩

theorem atRest_afterOffer (release : Release) (status : DownloadStatus) :
    (afterOffer release status).AtRest := by
  cases status with
  | consent => exact .agreed release
  | denied => exact .idle
  | postponed => exact .postponed release

theorem atRest_endPhase (status : InstallStatus) : AtRest ⟨status.endPhase, none, none⟩ :=
  .finished _ (by cases status <;> rfl)

theorem atRest_ended (status : InstallStatus) :
    AtRest ⟨(Readiness.ended status).phase, none, none⟩ := by
  cases status with
  | rollback => exact .idle
  | _ => exact .finished _ rfl

end Standing

/-- The status that counts for an answer to an offer: a hook that gives none denies it. -/
def Answer.decision : Answer DownloadStatus → DownloadStatus
  | .ok status => status
  | .error _ => .denied

namespace Course

variable (d : Device σ) (t : Standing) (site : Site σ)

/-- What is said of the update that another one takes the place of. -/
def dropping : List Json :=
  match (t.staged.map (·.release)).or t.awaited with
  | some release => [Report.status d.profile.handler release InstallStatus.aborted {}]
  | none => []

/-- What is said of the update under way when another release is offered. -/
def offering : List Json := if t.phase = .confirmDownload then [] else dropping d t

inductive Offers (release : Release) :
    List Call → List Json → Site σ → Standing → DownloadStatus → Prop
  | again (agreed : t = ⟨.awaitingTransfer, none, some release⟩) :
      Offers release [] [Report.status d.profile.handler release DownloadStatus.consent {}] site t
        .consent
  | asked {answer : Answer DownloadStatus} {after : Site σ}
      (new : t ≠ ⟨.awaitingTransfer, none, some release⟩)
      (answered : d.agent.confirmDownload release site = (answer, after)) :
      Offers release [⟨.confirmDownload release answer, site.files⟩]
        (offering d t ++ [Report.status d.profile.handler release answer.decision {}])
        after (.afterOffer release answer.decision) answer.decision

variable (order : Order)

/-- What is said of the update under way when `order` is taken up. -/
def takingUp : List Json := if t.awaited = some order.release then [] else dropping d t

inductive Prepares : List Call → List Json → Site σ → Standing → InstallStatus → Prop
  | again {u : Update} (found : t.staged = some u) (isFor : u.isFor order = true) :
      Prepares [] [saying d order .ready] site t .ready
  | staged {u : Update} {calls : List Call} {said : List Json} {after : Site σ}
      (new : t.staged.filter (·.isFor order) = none)
      (stages : Stages d order site calls said after (.ready u)) :
      Prepares calls (takingUp d t order ++ (said ++ [saying d order .ready])) after
        ⟨.preInstall, some u, none⟩ .ready
  | ended {status : InstallStatus} {calls : List Call} {said : List Json} {after : Site σ}
      (new : t.staged.filter (·.isFor order) = none)
      (stages : Stages d order site calls said after (.ended status)) :
      Prepares calls (takingUp d t order ++ said) after ⟨(Readiness.ended status).phase, none, none⟩
        status

inductive CarriesOut : List Call → List Json → Site σ → Standing → InstallStatus → Prop
  | staged {u : Update} {calls : List Call} {said : List Json} {after : Site σ}
      {status : InstallStatus} (found : t.staged = some u) (isFor : u.isFor order = true)
      (installs : Installs d order (d.archive.current? site.files order.release.name) u site calls
        said after status) :
      CarriesOut calls said after ⟨status.endPhase, none, none⟩ status
  | inline {u : Update} {calls more : List Call} {said further : List Json}
      {middle after : Site σ} {status : InstallStatus}
      (new : t.staged.filter (·.isFor order) = none)
      (stages : Stages d order site calls said middle (.ready u))
      (installs : Installs d order (d.archive.current? site.files order.release.name) u middle more
        further after status) :
      CarriesOut (calls ++ more) (takingUp d t order ++ (said ++ further)) after
        ⟨status.endPhase, none, none⟩ status
  | ended {status : InstallStatus} {calls : List Call} {said : List Json} {after : Site σ}
      (new : t.staged.filter (·.isFor order) = none)
      (stages : Stages d order site calls said after (.ended status)) :
      CarriesOut calls (takingUp d t order ++ said) after
        ⟨(Readiness.ended status).phase, none, none⟩ status

variable {d t site order} {s : Station σ}

theorem offering_of_open (opened : t.Open) (keeps : t.phase = .idle ∨ t.phase = .confirmDownload) :
    offering d t = [] ∧ t.staged = none ∧ t.phase.canEnter .confirmDownload = true := by
  cases opened with
  | idle | postponed release => exact ⟨rfl, rfl, rfl⟩
  | agreed release | staged u ready => simp at keeps

theorem leaveFinished_leads : Leads (leaveFinished (σ := σ)) s
    fun calls said site standing _ => calls = [] ∧ said = [] ∧ site = s.site ∧
      standing = s.standing.resumed := by
  unfold leaveFinished Standing.resumed
  apply Leads.get_bind
  by_cases terminal : s.phase.isTerminal
  · simp only [terminal, if_true]
    refine .enter_bind (by simp [Phase.canEnter, terminal]) (leads_modify rfl rfl ?_)
    exact ⟨rfl, rfl, rfl, by simp [terminal]⟩
  · simp only [terminal]
    exact .pure ⟨rfl, rfl, rfl, by simp [terminal]⟩

theorem giveWayTo_leads (incoming : Release) (opened : s.standing.Open) :
    Leads (giveWayTo d incoming) s fun calls said site standing _ => calls = [] ∧
      said = dropping d s.standing ∧ site = s.site ∧ standing = ⟨.idle, none, none⟩ := by
  unfold giveWayTo
  apply Leads.get_bind
  obtain ⟨site, outbox, journal, calls, phase, staged, awaited⟩ := s
  cases opened with
  | idle => exact .pure ⟨rfl, rfl, rfl, rfl⟩
  | postponed release | agreed release | staged u ready =>
    refine .set_bind rfl rfl (.note_bind (.report_bind fun _ => ?_))
    refine .enter_bind (by simp; rfl) (leads_enter rfl ⟨rfl, rfl, by simp, ?_⟩)
    simp

theorem awaitTransfer_leads (unstaged : s.staged = none)
    (can : s.phase = .awaitingTransfer ∨ s.phase.canEnter .awaitingTransfer = true) :
    Leads (awaitTransfer (σ := σ)) s fun calls said site standing _ => calls = [] ∧ said = [] ∧
      site = s.site ∧ standing = ⟨.awaitingTransfer, none, none⟩ := by
  unfold awaitTransfer
  apply Leads.get_bind
  by_cases awaiting : s.phase = .awaitingTransfer
  · simp only [awaiting, ne_eq, not_true_eq_false, if_false]
    exact leads_modify rfl rfl ⟨rfl, rfl, rfl, by simp [awaiting, unstaged]⟩
  · simp only [awaiting, ne_eq, not_false_eq_true, if_true]
    refine .enter_bind (can.resolve_left awaiting) (leads_modify rfl rfl ⟨rfl, rfl, rfl, ?_⟩)
    simpa [Station.standing] using unstaged

theorem takeUp_leads (opened : s.standing.Open) :
    Leads (takeUp d order) s fun calls said site standing _ => calls = [] ∧
      said = takingUp d s.standing order ∧ site = s.site ∧
      standing = ⟨.awaitingTransfer, none, none⟩ := by
  have gives (gone : takingUp d s.standing order = dropping d s.standing) :
      Leads (do giveWayTo d order.targetRelease; awaitTransfer) s fun calls said site standing _ =>
        calls = [] ∧ said = takingUp d s.standing order ∧ site = s.site ∧
        standing = ⟨.awaitingTransfer, none, none⟩ := by
    apply Leads.bind (giveWayTo_leads _ opened)
    intro _ _ _ next went
    obtain ⟨rfl, rfl, here, stands⟩ := went
    refine (awaitTransfer_leads (congrArg Standing.staged stands) (.inr ?_)).imp ?_
    · rw [show next.phase = .idle from congrArg Standing.phase stands]
      rfl
    · intro _ _ _ _ _ went
      obtain ⟨rfl, rfl, there, left⟩ := went
      exact ⟨rfl, by simp [gone], there.trans here, left⟩
  have keeps (same : s.awaited = some order.release) (unstaged : s.staged = none)
      (can : s.phase = .awaitingTransfer ∨ s.phase.canEnter .awaitingTransfer = true) :
      Leads (awaitTransfer (σ := σ)) s fun calls said site standing _ =>
        calls = [] ∧ said = takingUp d s.standing order ∧ site = s.site ∧
        standing = ⟨.awaitingTransfer, none, none⟩ := by
    apply (awaitTransfer_leads unstaged can).imp
    intro _ _ _ _ _ went
    obtain ⟨rfl, rfl, there, left⟩ := went
    exact ⟨rfl, by simp [takingUp, same], there, left⟩
  unfold takeUp
  apply Leads.get_bind
  obtain ⟨site, outbox, journal, calls, phase, staged, awaited⟩ := s
  cases opened with
  | idle => exact awaitTransfer_leads rfl (.inr rfl)
  | postponed release | agreed release =>
    by_cases same : release = order.release
    · rw [if_neg (by simp [awaits, same])]
      exact keeps (congrArg some same) rfl
        (by simp [Phase.canEnter, Phase.isStep, Phase.isTerminal])
    · rw [if_pos (by simp [awaits, same])]
      exact gives (by simp [takingUp, same])
  | staged u ready => exact gives rfl

theorem stagedFor?_of_open (opened : s.standing.Open) :
    stagedFor? s order = s.staged.filter (·.isFor order) := by
  obtain ⟨site, outbox, journal, calls, phase, staged, awaited⟩ := s
  cases opened with
  | idle | postponed release | agreed release => rfl
  | staged u ready => simp [stagedFor?, Update.isStaged, Option.filter, ready]

theorem askConsent_leads (release : Release) : Leads (askConsent d release) s
    fun calls said site standing status => ∃ answer,
      d.agent.confirmDownload release s.site = (answer, site) ∧
      calls = [⟨.confirmDownload release answer, s.site.files⟩] ∧ said = [] ∧
      standing = s.standing ∧ status = answer.decision := by
  cases answered : d.agent.confirmDownload release s.site with
  | mk answer after =>
    refine .ask_bind answered ?_
    cases answer with
    | ok status => exact .pure ⟨.ok status, rfl, rfl, rfl, by simp, rfl⟩
    | error e => exact .note_bind (.pure ⟨.error e, rfl, rfl, rfl, by simp, rfl⟩)

theorem abideBy_leads (release : Release) (status : DownloadStatus)
    (phase : s.phase = .confirmDownload) (unstaged : s.staged = none) :
    Leads (abideBy release status) s fun calls said site standing _ => calls = [] ∧ said = [] ∧
      site = s.site ∧ standing = .afterOffer release status := by
  cases status with
  | consent =>
    refine .enter_bind (by rw [Station.phase_standing, phase]; rfl) (leads_modify rfl rfl ?_)
    exact ⟨rfl, rfl, rfl, by simp [Standing.afterOffer, unstaged]⟩
  | denied =>
    refine .enter_bind (by rw [Station.phase_standing, phase]; rfl) (leads_modify rfl rfl ?_)
    exact ⟨rfl, rfl, rfl, by simp [Standing.afterOffer, unstaged]⟩
  | postponed =>
    exact leads_modify rfl rfl ⟨rfl, rfl, rfl, by simp [Standing.afterOffer, unstaged, phase]⟩

theorem consider_leads (release : Release) (can : s.phase.canEnter .confirmDownload = true)
    (unstaged : s.staged = none) : Leads (consider d release) s
      fun calls said site standing status => ∃ answer,
        d.agent.confirmDownload release s.site = (answer, site) ∧
        calls = [⟨.confirmDownload release answer, s.site.files⟩] ∧
        said = [Report.status d.profile.handler release answer.decision {}] ∧
        standing = .afterOffer release answer.decision ∧ status = answer.decision := by
  refine .enter_bind can (.bind (askConsent_leads release) ?_)
  intro _ _ _ next went
  obtain ⟨answer, answered, rfl, rfl, stands, rfl⟩ := went
  refine .bind (abideBy_leads release _ (congrArg Standing.phase stands)
    ((congrArg Standing.staged stands).trans unstaged)) ?_
  intro _ _ _ later went
  obtain ⟨rfl, rfl, here, left⟩ := went
  refine .note_bind (.report_bind fun _ => .pure ⟨answer, ?_, rfl, rfl, ?_, rfl⟩)
  · rw [Station.site_reported, Station.site_noted, here]
    exact answered
  · rw [Station.standing_reported, Station.standing_noted, left]

theorem onOffer_leads (release : Release) (rest : s.standing.AtRest) :
    Leads (onOffer d release) s (Offers d s.standing.resumed s.site release) := by
  apply Leads.bind leaveFinished_leads
  intro _ _ _ next went
  obtain ⟨rfl, rfl, here, stands⟩ := went
  have opened := rest.open_resumed
  rw [← stands, ← here]
  rw [← stands] at opened
  apply Leads.get_bind
  by_cases agreed : next.phase = .awaitingTransfer ∧ next.awaited = some release
  · rw [if_pos agreed]
    refine .note_bind (.report_bind fun _ => .pure ?_)
    rw [Station.site_reported, Station.standing_reported]
    exact .again (opened.agreed_iff.mp agreed)
  · have new : next.standing ≠ ⟨.awaitingTransfer, none, some release⟩ := by
      rwa [ne_eq, ← opened.agreed_iff]
    rw [if_neg agreed]
    by_cases keeps : next.phase = .idle ∨ next.phase = .confirmDownload
    · rw [if_neg (not_not_intro keeps)]
      obtain ⟨quiet, unstaged, can⟩ := offering_of_open (d := d) opened keeps
      apply (consider_leads release can unstaged).imp
      intro _ _ _ _ _ went
      obtain ⟨answer, answered, rfl, rfl, rfl, rfl⟩ := went
      simpa [quiet] using (.asked new answered : Offers d _ _ _ _ _ _ _ _)
    · rw [if_pos keeps]
      apply Leads.bind (giveWayTo_leads _ opened)
      intro _ _ _ later went
      obtain ⟨rfl, rfl, there, idle⟩ := went
      refine (consider_leads release ?_ (congrArg Standing.staged idle)).imp ?_
      · rw [show later.phase = .idle from congrArg Standing.phase idle]
        rfl
      · intro _ _ _ _ _ went
        obtain ⟨answer, answered, rfl, rfl, rfl, rfl⟩ := went
        have said : dropping d next.standing = offering d next.standing := by
          rw [offering, Station.phase_standing, if_neg fun other => keeps (.inr other)]
        rw [there] at answered
        rw [said, there]
        exact .asked new answered

theorem onPrepare_leads (rest : s.standing.AtRest) :
    Leads (onPrepare d order) s (Prepares d s.standing.resumed s.site order) := by
  apply Leads.bind leaveFinished_leads
  intro _ _ _ next went
  obtain ⟨rfl, rfl, here, stands⟩ := went
  have opened := rest.open_resumed
  rw [← stands, ← here]
  rw [← stands] at opened
  apply Leads.get_bind
  rw [stagedFor?_of_open opened]
  cases found : next.staged.filter (·.isFor order) with
  | some u =>
    obtain ⟨staged, isFor⟩ := Option.filter_eq_some_iff.mp found
    refine .note_bind (.report_bind fun _ => .pure ?_)
    rw [Station.site_reported, Station.standing_reported]
    exact .again staged isFor
  | none =>
    apply Leads.bind (takeUp_leads opened)
    intro _ _ _ later went
    obtain ⟨rfl, rfl, there, unmoved⟩ := went
    apply Leads.bind (stage_leads unmoved)
    intro calls said result final went
    obtain ⟨stages, left⟩ := went
    rw [there] at stages
    cases result with
    | ended status =>
      apply Leads.pure
      rw [left]
      simpa using (.ended found stages : Prepares d _ _ order _ _ _ _ _)
    | ready u =>
      refine .note_bind (.modify_bind rfl rfl (.report_bind fun _ => .pure ?_))
      have phase : final.phase = .preInstall := congrArg Standing.phase left
      have unawaited : final.awaited = none := congrArg Standing.awaited left
      rw [Station.site_reported, Station.standing_reported]
      simpa [phase, unawaited, saying] using (.staged found stages :
        Prepares d next.standing _ order _ _ _ _ _)

theorem onInstall_leads (rest : s.standing.AtRest) :
    Leads (onInstall d order) s (CarriesOut d s.standing.resumed s.site order) := by
  apply Leads.bind leaveFinished_leads
  intro _ _ _ next went
  obtain ⟨rfl, rfl, here, stands⟩ := went
  have opened := rest.open_resumed
  rw [← stands, ← here]
  rw [← stands] at opened
  refine .files_bind (.get_bind ?_)
  rw [stagedFor?_of_open opened]
  cases found : next.staged.filter (·.isFor order) with
  | some u =>
    obtain ⟨staged, isFor⟩ := Option.filter_eq_some_iff.mp found
    have phase := congrArg Standing.phase (opened.eq_of_staged staged)
    have unawaited := congrArg Standing.awaited (opened.eq_of_staged staged)
    refine .modify_bind rfl rfl ((checkAndInstall_leads ?_).imp ?_)
    · rw [Station.standing_mk, show next.phase = .preInstall from phase,
        show next.awaited = none from unawaited]
    · intro calls said site standing status went
      obtain ⟨installs, rfl⟩ := went
      exact .staged staged isFor installs
  | none =>
    apply Leads.bind (takeUp_leads opened)
    intro _ _ _ later went
    obtain ⟨rfl, rfl, there, unmoved⟩ := went
    apply Leads.bind (stage_leads unmoved)
    intro calls said result final went
    obtain ⟨stages, left⟩ := went
    rw [there] at stages
    cases result with
    | ended status =>
      apply Leads.pure
      rw [left]
      simpa using (.ended found stages : CarriesOut d _ _ order _ _ _ _ _)
    | ready u =>
      apply (checkAndInstall_leads left).imp
      intro more further site standing status went
      obtain ⟨installs, rfl⟩ := went
      simpa using (.inline found stages installs : CarriesOut d _ _ order _ _ _ _ _)

def replying (d : Device σ) (package : String) (replyId : Option String) (t : Files.Tree) :
    Answer (Option String) → List Json
  | .ok version => [Report.queryReply replyId (packageReport d t package version)]
  | .error _ => []

theorem onQuery_leads (package : String) (replyId : Option String) :
    Leads (onQuery d package replyId) s fun calls said site standing _ => ∃ answer,
      d.agent.getVersion d.archive package s.site = (answer, site) ∧
      calls = [⟨.getVersion package answer, s.site.files⟩] ∧
      said = replying d package replyId site.files answer ∧ standing = s.standing := by
  cases answered : d.agent.getVersion d.archive package s.site with
  | mk answer after =>
    refine .ask_bind answered ?_
    cases answer with
    | error e => exact .note_bind (.pure ⟨.error e, rfl, rfl, rfl, by simp⟩)
    | ok version =>
      refine .files_bind (.note_bind (.send_bind fun _ => .pure ⟨.ok version, ?_, ?_, ?_, ?_⟩))
      · simp
      · rfl
      · simp [replying]
      · simp

def answer (d : Device σ) : Event → Course σ (Option Status)
  | .query _ package replyId => do
    let _ ← onQuery d package replyId
    return none
  | .offered _ release => return some (.download (← onOffer d release))
  | .prepare order => return some (.install (← onPrepare d order))
  | .install order => return some (.install (← onInstall d order))
  | e => do
    deal d e
    return none

theorem deal_eq_answer (d : Device σ) (e : Event) : deal d e = (do let _ ← answer d e) := by
  cases e <;> simp [deal, answer]

inductive Deals (d : Device σ) (t : Standing) (site : Site σ) :
    Event → List Call → List Json → Site σ → Standing → Option Status → Prop
  | query {handler package : String} {replyId : Option String} {answer : Answer (Option String)}
      {after : Site σ} (answered : d.agent.getVersion d.archive package site = (answer, after)) :
      Deals d t site (.query handler package replyId) [⟨.getVersion package answer, site.files⟩]
        (replying d package replyId after.files answer) after t none
  | offered {handler : String} {release : Release} {calls : List Call} {said : List Json}
      {after : Site σ} {left : Standing} {status : DownloadStatus}
      (offers : Offers d t.resumed site release calls said after left status) :
      Deals d t site (.offered handler release) calls said after left (some status)
  | prepare {order : Order} {calls : List Call} {said : List Json} {after : Site σ}
      {left : Standing} {status : InstallStatus}
      (prepares : Prepares d t.resumed site order calls said after left status) :
      Deals d t site (.prepare order) calls said after left (some status)
  | install {order : Order} {calls : List Call} {said : List Json} {after : Site σ}
      {left : Standing} {status : InstallStatus}
      (carriesOut : CarriesOut d t.resumed site order calls said after left status) :
      Deals d t site (.install order) calls said after left (some status)
  | confirmed (handler : String) (release : Release) :
      Deals d t site (.confirmed handler release) [] [] site t none
  | downloading (handler : String) (release : Release) (downloadedBytes totalBytes : Nat) :
      Deals d t site (.downloading handler release downloadedBytes totalBytes) [] [] site t none
  | unhandled (kind : String) : Deals d t site (.unhandled kind) [] [] site t none

theorem Deals.atRest {e : Event} {calls : List Call} {said : List Json} {after : Site σ}
    {left : Standing} {status : Option Status}
    (goes : Deals d t site e calls said after left status) (rest : t.AtRest) : left.AtRest := by
  cases goes with
  | query | confirmed | downloading | unhandled => exact rest
  | offered offers => cases offers with
    | again agreed => exact rest.open_resumed.atRest
    | asked new answered => exact Standing.atRest_afterOffer ..
  | prepare prepares => cases prepares with
    | again found isFor => exact rest.open_resumed.atRest
    | staged new stages => exact .staged _ stages.prepared
    | ended new stages => exact Standing.atRest_ended _
  | install carriesOut => cases carriesOut with
    | staged found isFor installs => exact Standing.atRest_endPhase _
    | inline new stages installs => exact Standing.atRest_endPhase _
    | ended new stages => exact Standing.atRest_ended _

theorem answer_leads (e : Event) (rest : s.standing.AtRest) :
    Leads (answer d e) s (Deals d s.standing s.site e) := by
  cases e with
  | query handler package replyId =>
    refine .bind_pure ((onQuery_leads package replyId).imp ?_)
    intro _ _ site _ _ went
    obtain ⟨answer, answered, rfl, rfl, rfl⟩ := went
    exact .query answered
  | offered handler release =>
    exact .bind_pure ((onOffer_leads release rest).imp fun _ _ _ _ _ => .offered)
  | prepare order => exact .bind_pure ((onPrepare_leads rest).imp fun _ _ _ _ _ => .prepare)
  | install order => exact .bind_pure ((onInstall_leads rest).imp fun _ _ _ _ _ => .install)
  | confirmed handler release => exact .note_bind (.pure (.confirmed handler release))
  | downloading handler release downloadedBytes totalBytes =>
    exact .note_bind (.pure (.downloading handler release downloadedBytes totalBytes))
  | unhandled kind => exact .note_bind (.pure (.unhandled kind))

end Course
end OtaAgent
