import OtaAgent.Proofs.Course.Staging

set_option autoImplicit false

namespace OtaAgent

variable {σ : Type}

/-- Where an update that has ended with the status leaves the course. -/
def InstallStatus.endPhase : InstallStatus → Phase
  | .completed => .completed
  | .rollback => .rolledBack
  | .aborted => .aborted
  | _ => .failed

/-- The status that counts for an answer: a hook that gives none has failed. -/
def Answer.status : Answer InstallStatus → InstallStatus
  | .ok status => status
  | .error _ => .failed

theorem Answer.eq_ok_of_status {answer : Answer InstallStatus} {status : InstallStatus}
    (hit : Answer.status answer = status) (notFailed : status ≠ .failed) : answer = .ok status := by
  cases answer with
  | ok given => exact congrArg Except.ok hit
  | error e => exact absurd hit.symm notFailed

namespace Installed

variable (installed : Installed)

def status : InstallStatus := Answer.status installed.answer

def left : Update := { installed.update with installed := some installed.status }

@[simp] theorem release_left : installed.left.release = installed.update.release := rfl
@[simp] theorem name_left : installed.left.name = installed.update.name := rfl
@[simp] theorem version_left : installed.left.version = installed.update.version := rfl
@[simp] theorem file_left : installed.left.file = installed.update.file := rfl
@[simp] theorem received_left : installed.left.received = installed.update.received := rfl
@[simp] theorem fallback_left : installed.left.fallback = installed.update.fallback := rfl

end Installed

namespace Course

variable (d : Device σ) (order : Order)

inductive Ends (previous : Option String) (u : Update) (site : Site σ) :
    InstallStatus → List Call → List Json → Site σ → InstallStatus → Prop
  | completed {recorded told : Answer Unit} {middle after : Site σ}
      (recording : d.agent.setVersion d.archive (receiptOf site.files u) site = (recorded, middle))
      (telling : d.agent.postInstall u.name middle = (told, after)) :
      Ends previous u site .completed
        [⟨.setVersion (receiptOf site.files u) recorded, site.files⟩,
          ⟨.postInstall u.name told, middle.files⟩]
        [saying d order .completed] after .completed
  | noTarget (unknown : fallback? d site.files order u previous = none) :
      Ends previous u site .rollback [] [sayingFailed d order site.files] site .failed
  | notRestored {version : String} {e : Error} {files : Files.Tree}
      (target : fallback? d site.files order u previous = some version)
      (refused : (d.archive.reinstate u.name version).runOn site.files = (.error e, files)) :
      Ends previous u site .rollback [] [sayingFailed d order files] { site with files } .failed
  | restored {version : String} {history : History} {files : Files.Tree}
      (target : fallback? d site.files order u previous = some version)
      (restoring : (d.archive.reinstate u.name version).runOn site.files = (.ok history, files)) :
      Ends previous u site .rollback []
        [saying d order .rollback
          { rollbackVersion := some version, rollbackVersions := order.rollbackVersions }]
        { site with files } .rollback
  | aborted : Ends previous u site .aborted [] [saying d order .aborted] site .aborted
  | failed {status : InstallStatus} (notCompleted : status ≠ .completed)
      (notRollback : status ≠ .rollback) (notAborted : status ≠ .aborted) :
      Ends previous u site status [] [sayingFailed d order site.files] site .failed

inductive Installs (previous : Option String) (u : Update) (site : Site σ) :
    List Call → List Json → Site σ → InstallStatus → Prop
  | calledOff {after : Site σ} (answered : d.agent.preInstall u site = (.ok .aborted, after)) :
      Installs previous u site [⟨.preInstall u (.ok .aborted), site.files⟩]
        [saying d order .aborted] after .aborted
  | notCleared {answer : Answer InstallStatus} {after : Site σ}
      (answered : d.agent.preInstall u site = (answer, after))
      (notGoing : answer ≠ .ok .inProgress) (notAborted : answer ≠ .ok .aborted) :
      Installs previous u site [⟨.preInstall u answer, site.files⟩]
        [sayingFailed d order after.files] after .failed
  | installed {installed : Installed} {middle later after : Site σ} {calls : List Call}
      {said : List Json} {status : InstallStatus}
      (cleared : d.agent.preInstall u site = (.ok .inProgress, middle))
      (did : d.agent.install u middle = (installed, later))
      (ends : Ends d order previous installed.left later installed.status calls said after status) :
      Installs previous u site
        (⟨.preInstall u (.ok .inProgress), site.files⟩ ::
          ⟨.install u installed, middle.files⟩ :: calls)
        (saying d order .inProgress :: Report.progress u.release .install 0 true :: said) after
        status

variable {d order} {s : Station σ}

theorem verdict_leads (name code : String) (release : Release) (answer : Answer InstallStatus) :
    Leads (verdict code release (answer.mapError (·.toError name))) s
      fun calls said site standing status => calls = [] ∧ said = [] ∧ site = s.site ∧
        standing = s.standing ∧ status = answer.status := by
  cases answer with
  | ok status => exact .pure ⟨rfl, rfl, rfl, rfl, rfl⟩
  | error e => exact .note_bind (.pure ⟨rfl, rfl, rfl, rfl, rfl⟩)

theorem endAborted_leads {ways : List Call → List Json → Site σ → Standing → InstallStatus → Prop}
    (can : s.standing.phase.canEnter .aborted = true)
    (foreseen : ways [] [saying d order .aborted] s.site ⟨.aborted, none, s.standing.awaited⟩
      .aborted) : Leads (endAborted d order) s ways := by
  refine .enter_bind can (.modify_bind rfl rfl (.note_bind (.report_bind fun _ => .pure ?_)))
  rw [Station.site_reported, Station.standing_reported]
  exact foreseen

theorem passOver_leads (level : Level) (code : String) (release : Release)
    (result : Except Error Unit) : Leads (passOver level code release result) s
      fun calls said site standing _ =>
        calls = [] ∧ said = [] ∧ site = s.site ∧ standing = s.standing := by
  cases result with
  | ok _ => exact .pure ⟨rfl, rfl, rfl, rfl⟩
  | error e =>
    exact (ensures_note ..).mpr ⟨[], [], ⟨rfl, rfl, rfl, rfl⟩, (List.append_nil _).symm, rfl⟩

section Ends

variable {previous : Option String} {u : Update}

theorem endCompleted_leads (stands : s.standing = ⟨.installing, none, none⟩) :
    Leads (endCompleted d order u) s fun calls said site standing status =>
      Ends d order previous u s.site .completed calls said site status ∧
        standing = ⟨status.endPhase, none, none⟩ := by
  unfold endCompleted
  apply Leads.files_bind
  cases recording : d.agent.setVersion d.archive (receiptOf s.site.files u) s.site with
  | mk recorded middle =>
    refine .ask_bind recording (.bind (passOver_leads ..) ?_)
    intro _ _ _ next went
    obtain ⟨rfl, rfl, here, unmoved⟩ := went
    rw [Station.site_called] at here
    rw [Station.standing_called, stands] at unmoved
    refine .enter_bind (by rw [unmoved]; rfl) (.report_bind fun _ => ?_)
    have sited : ((next.entered .postInstall).reported d order.release
      InstallStatus.completed).site = middle := by simpa using here
    cases telling : d.agent.postInstall u.name middle with
    | mk told after =>
      have asked := telling
      rw [← sited] at asked
      refine .ask_bind asked (.bind (passOver_leads ..) ?_)
      intro _ _ _ later went
      obtain ⟨rfl, rfl, there, still⟩ := went
      rw [Station.site_called] at there
      simp only [Station.standing_called, Station.standing_reported, Station.standing_entered,
        unmoved] at still
      refine .enter_bind (by rw [still]; rfl) (.note_bind (.pure ?_))
      rw [Station.site_noted, Station.site_entered, Station.standing_noted,
        Station.standing_entered, there, still, sited]
      exact ⟨.completed recording telling, rfl⟩

theorem fallBack_leads (stands : s.standing = ⟨.installing, none, none⟩) :
    Leads (fallBack d order u previous) s fun calls said site standing status =>
      Ends d order previous u s.site .rollback calls said site status ∧
        standing = ⟨status.endPhase, none, none⟩ := by
  unfold fallBack
  apply Leads.files_bind
  cases target : fallback? d s.site.files order u previous with
  | none => exact endFailed_leads _ (by rw [stands]; rfl) ⟨.noTarget target, by rw [stands]; rfl⟩
  | some version =>
    cases ran : (d.archive.reinstate u.name version).runOn s.site.files with
    | mk result files =>
      apply Leads.perform_bind ran
      have unmoved : Station.standing { s with site := { s.site with files } } = _ := stands
      cases result with
      | error e =>
        exact endFailed_leads _ (by rw [unmoved]; rfl)
          ⟨.notRestored target ran, by rw [unmoved]; rfl⟩
      | ok history =>
        refine .enter_bind (by rw [unmoved]; rfl) (.note_bind (.report_bind fun _ => .pure ?_))
        rw [Station.site_reported, Station.standing_reported]
        refine ⟨.restored target ran, ?_⟩
        rw [Station.standing_noted, Station.standing_entered, unmoved]
        rfl

theorem ends_leads (status : InstallStatus) (stands : s.standing = ⟨.installing, none, none⟩) :
    Leads (match status with
      | .completed => endCompleted d order u
      | .rollback => fallBack d order u previous
      | .aborted => endAborted d order
      | status => endFailed d order s!"install answered {status.text}") s
      fun calls said site standing result =>
        Ends d order previous u s.site status calls said site result ∧
          standing = ⟨result.endPhase, none, none⟩ := by
  have failed (notCompleted : status ≠ .completed) (notRollback : status ≠ .rollback)
      (notAborted : status ≠ .aborted) (reason : String) :
      Leads (endFailed d order reason) s fun calls said site standing result =>
        Ends d order previous u s.site status calls said site result ∧
          standing = ⟨result.endPhase, none, none⟩ :=
    endFailed_leads reason (by rw [stands]; rfl)
      ⟨.failed notCompleted notRollback notAborted, by rw [stands]; rfl⟩
  split
  · exact endCompleted_leads stands
  · exact fallBack_leads stands
  · exact endAborted_leads (by rw [stands]; rfl) ⟨.aborted, by rw [stands]; rfl⟩
  · exact failed ‹_› ‹_› ‹_› _

end Ends

theorem install_leads {site : Site σ} {u : Update} {previous : Option String}
    (cleared : d.agent.preInstall u site = (.ok .inProgress, s.site))
    (stands : s.standing = ⟨.preInstall, none, none⟩) :
    Leads (install d order u previous) s fun more further after standing status =>
      Installs d order previous u site (⟨.preInstall u (.ok .inProgress), site.files⟩ :: more)
        further after status ∧ standing = ⟨status.endPhase, none, none⟩ := by
  have sited : ((((s.entered .installing).reported d order.release
    InstallStatus.inProgress).offered (Report.progress u.release .install 0 true))).site =
      s.site := by simp
  refine .enter_bind (by rw [stands]; rfl) (.report_bind fun _ => ?_)
  apply Leads.progress_bind (Nat.zero_le 100)
  cases did : d.agent.install u s.site with
  | mk installed later =>
    have called := did
    rw [← sited] at called
    refine .call_bind called (.bind (verdict_leads ..) ?_)
    intro _ _ _ next went
    obtain ⟨rfl, rfl, here, unmoved, rfl⟩ := went
    have still : next.standing = ⟨.installing, none, none⟩ := by simp [unmoved, stands]
    apply (ends_leads (u := installed.left) _ still).imp
    intro calls said site standing status went
    obtain ⟨ends, left⟩ := went
    rw [here] at ends
    rw [sited]
    exact ⟨.installed cleared did ends, left⟩

theorem checkAndInstall_leads {u : Update} {previous : Option String}
    (stands : s.standing = ⟨.preInstall, none, none⟩) :
    Leads (checkAndInstall d order u previous) s fun calls said site standing status =>
      Installs d order previous u s.site calls said site status ∧
        standing = ⟨status.endPhase, none, none⟩ := by
  cases answered : d.agent.preInstall u s.site with
  | mk answer middle =>
    refine .ask_bind answered (.bind (verdict_leads ..) ?_)
    intro _ _ _ next went
    obtain ⟨rfl, rfl, here, unmoved, rfl⟩ := went
    rw [Station.site_called] at here
    rw [Station.standing_called, stands] at unmoved
    split
    · rename_i going
      obtain rfl := Answer.eq_ok_of_status going nofun
      rw [← here] at answered
      exact install_leads answered unmoved
    · rename_i aborted
      obtain rfl := Answer.eq_ok_of_status aborted nofun
      refine endAborted_leads (by rw [unmoved]; rfl) ⟨?_, by rw [unmoved]; rfl⟩
      rw [here]
      exact .calledOff answered
    · rename_i notGoing notAborted
      refine endFailed_leads _ (by rw [unmoved]; rfl) ⟨?_, by rw [unmoved]; rfl⟩
      rw [here]
      refine .notCleared answered ?_ ?_
      · intro same
        subst same
        exact notGoing rfl
      · intro same
        subst same
        exact notAborted rfl

end Course
end OtaAgent
