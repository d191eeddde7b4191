import OtaAgent.Proofs.Course.Ensures
import OtaAgent.Proofs.Files.Job

set_option autoImplicit false

namespace OtaAgent

variable {σ : Type}

@[simp] theorem Update.release_relocated (u : Update) (path : Option Path) :
    (u.relocated path).release = u.release := by
  cases path <;> rfl

@[simp] theorem Update.announced_relocated (u : Update) (path : Option Path) :
    (u.relocated path).announced = u.announced := by
  cases path <;> rfl

def Readiness.phase : Readiness → Phase
  | .ready _ => .preInstall
  | .ended .rollback => .idle
  | .ended _ => .failed

namespace Course

variable (d : Device σ) (order : Order)

def saying (status : InstallStatus) (remarks : Remarks := {}) : Json :=
  Report.status d.profile.handler order.release status remarks

def sayingFailed (t : Files.Tree) : Json := saying d order .failed (failureRemarks d t order)

/-- What is said of an update before it is staged: if it was ordered as a rollback, to which version
and whether its file was downloaded. -/
def announcing (u : Update) : List Json :=
  if order.rollbackVersion.isSome then
    [saying d order .rollback (rollbackRemarks u.version u.downloaded)]
  else []

def broughtBy (u : Update) : Answer Transferred → Update
  | .ok outcome =>
    { (if outcome.status = 0 then u.relocated outcome.newPath else u) with
      transferred := some outcome.status }
  | .error _ => { u with transferred := some 1 }

@[simp] theorem release_broughtBy (u : Update) (answer : Answer Transferred) :
    (broughtBy u answer).release = u.release := by
  cases answer with
  | error e => rfl
  | ok outcome =>
    simp only [broughtBy]
    split
    · exact Update.release_relocated u outcome.newPath
    · rfl

@[simp] theorem announced_broughtBy (u : Update) (answer : Answer Transferred) :
    (broughtBy u answer).announced = u.announced := by
  cases answer with
  | error e => rfl
  | ok outcome =>
    simp only [broughtBy]
    split
    · exact Update.announced_relocated u outcome.newPath
    · rfl

/-- How the file of an update comes to the device: it lies there as a backup, or the agent brings
it. -/
inductive Brings (site : Site σ) (u : Update) :
    List Call → List Json → Site σ → Update → Prop
  | backup (isBackup : u.isBackup = true) : Brings site u [] [] site u
  | transfer {outcome : Transferred} {after : Site σ} (notBackup : u.isBackup = false)
      (answered : d.agent.transferFile u site = (.ok outcome, after))
      (success : outcome.status = 0) :
      Brings site u [⟨.transferFile u (.ok outcome), site.files⟩]
        [Report.progress u.release .transfer 0 false, Report.progress u.release .transfer 100 false]
        after (broughtBy u (.ok outcome))

inductive MakesReady (site : Site σ) (u : Update) :
    List Call → List Json → Site σ → Readiness → Prop
  | notBrought {answer : Answer Transferred} {after : Site σ} (notBackup : u.isBackup = false)
      (answered : d.agent.transferFile u site = (answer, after))
      (failed : ∀ outcome, answer = .ok outcome → outcome.status ≠ 0) :
      MakesReady site u [⟨.transferFile u answer, site.files⟩]
        [Report.progress u.release .transfer 0 false, sayingFailed d order after.files]
        after (.ended .failed)
  | refused {calls : List Call} {said : List Json} {after : Site σ} {brought : Update} {e : Error}
      (brings : Brings d site u calls said after brought)
      (mismatch : ((checkDigest d brought).runOn after.files).1 = .error e) :
      MakesReady site u calls (said ++ [sayingFailed d order after.files]) after (.ended .failed)
  | notStaged {calls : List Call} {said : List Json} {middle after : Site σ} {brought : Update}
      {answer : Answer Prepared} (brings : Brings d site u calls said middle brought)
      (checked : ((checkDigest d brought).runOn middle.files).1 = .ok ())
      (answered : d.agent.prepareInstall brought middle = (answer, after))
      (failed : ∀ outcome, answer = .ok outcome → outcome.status ≠ .ready) :
      MakesReady site u (calls ++ [⟨.prepareInstall brought answer, middle.files⟩])
        (said ++ [sayingFailed d order after.files]) after (.ended .failed)
  | ready {calls : List Call} {said : List Json} {middle after : Site σ} {brought : Update}
      {newPath : Option Path} (brings : Brings d site u calls said middle brought)
      (checked : ((checkDigest d brought).runOn middle.files).1 = .ok ())
      (answered : d.agent.prepareInstall brought middle = (.ok ⟨.ready, newPath⟩, after)) :
      MakesReady site u
        (calls ++ [⟨.prepareInstall brought (.ok ⟨.ready, newPath⟩), middle.files⟩]) said after
        (.ready { brought.relocated newPath with prepared := some .ready })

inductive Stages (site : Site σ) : List Call → List Json → Site σ → Readiness → Prop
  | missing (unplanned : plan? d site.files order = none)
      (ordinary : order.rollbackVersion = none) :
      Stages site [] [sayingFailed d order site.files] site (.ended .failed)
  | wanted {version : String} (unplanned : plan? d site.files order = none)
      (rollback : order.rollbackVersion = some version) :
      Stages site [] [saying d order .rollback (rollbackRemarks version false)] site
        (.ended .rollback)
  | planned {u : Update} {calls : List Call} {said : List Json} {after : Site σ}
      {result : Readiness} (plan : plan? d site.files order = some u)
      (goes : MakesReady d order site u calls said after result) :
      Stages site calls (announcing d order u ++ said) after result

variable {d order} {s : Station σ}

theorem Stages.prepared {site after : Site σ} {calls : List Call} {said : List Json} {u : Update}
    (stages : Stages d order site calls said after (.ready u)) : u.prepared = some .ready := by
  cases stages with
  | planned plan goes => cases goes with
    | ready brings checked answered => rfl

theorem endFailed_leads {ways : List Call → List Json → Site σ → Standing → InstallStatus → Prop}
    (reason : String) (can : s.standing.phase.canEnter .failed = true)
    (foreseen : ways [] [sayingFailed d order s.site.files] s.site
      ⟨.failed, none, s.standing.awaited⟩ .failed) :
    Leads (endFailed d order reason) s ways := by
  refine .enter_bind can (.modify_bind rfl rfl (.note_bind (.files_bind (.report_bind fun _ =>
    .pure ?_))))
  rw [Station.site_reported, Station.standing_reported]
  exact foreseen

theorem askForDownload_leads {ways : List Call → List Json → Site σ → Standing → Readiness → Prop}
    (version : String) (can : s.standing.phase.canEnter .idle = true)
    (foreseen : ways [] [saying d order .rollback (rollbackRemarks version false)] s.site
      ⟨.idle, none, none⟩ (.ended .rollback)) :
    Leads (askForDownload d order version) s ways := by
  refine .note_bind (.report_bind fun _ => .modify_bind rfl rfl (.enter_bind ?_ (.pure ?_)))
  · simpa using can
  · simpa [saying] using foreseen

theorem looks_checkDigest (d : Device σ) (u : Update) : Files.Job.Looks (checkDigest d u) := by
  unfold checkDigest
  split
  · exact .pure ()
  · split
    · split
      · exact .bind (Files.Job.looks_fileDigest _) fun found => by
          split
          · exact .throw _
          · exact .pure ()
      · exact .throw _
    · exact .pure ()

/-- Staging that ends in a failure goes in one of `ways` if these foresee the failure. -/
theorem endedFailed_leads {ways : List Call → List Json → Site σ → Readiness → Prop} {phase : Phase}
    (reason : String) (stands : s.standing = ⟨phase, none, none⟩)
    (can : phase.canEnter .failed = true)
    (foreseen : ways [] [sayingFailed d order s.site.files] s.site (.ended .failed)) :
    Leads (do return Readiness.ended (← endFailed d order reason)) s
      fun calls said site standing result =>
        ways calls said site result ∧ standing = ⟨result.phase, none, none⟩ := by
  refine .bind_pure (endFailed_leads reason (by rwa [stands]) ⟨foreseen, ?_⟩)
  rw [stands]
  rfl

theorem stageFile_leads {site : Site σ} {u brought : Update} {calls : List Call}
    {said : List Json} (brings : Brings d site u calls said s.site brought)
    (checked : ((checkDigest d brought).runOn s.site.files).1 = .ok ())
    (stands : s.standing = ⟨.awaitingTransfer, none, none⟩) :
    Leads (stageFile d order brought) s fun more further after standing result =>
      MakesReady d order site u (calls ++ more) (said ++ further) after result ∧
        standing = ⟨result.phase, none, none⟩ := by
  apply Leads.enter_bind (by rw [stands]; rfl)
  cases answered : d.agent.prepareInstall brought s.site with
  | mk answer after =>
    refine .ask_bind answered ?_
    have left : ((s.entered .prepareInstall).called (.prepareInstall brought answer)
      after).standing = ⟨.prepareInstall, none, none⟩ := by simp [stands]
    cases answer with
    | error e =>
      exact endedFailed_leads _ left rfl (.notStaged brings checked answered (by simp))
    | ok outcome =>
      obtain ⟨status, newPath⟩ := outcome
      by_cases ready : status = .ready
      · subst ready
        simp only [mapError_ok, if_true]
        refine .enter_bind (by rw [left]; rfl) (.pure ⟨?_, by simp [left, Readiness.phase]⟩)
        simpa using (.ready brings checked answered : MakesReady d order _ _ _ _ _ _)
      · simp only [mapError_ok, ready, if_false]
        exact endedFailed_leads _ left rfl
          (.notStaged brings checked answered (by rintro _ ⟨⟩; exact ready))

theorem checkAndStage_leads {site : Site σ} {u brought : Update} {calls : List Call}
    {said : List Json} (brings : Brings d site u calls said s.site brought)
    (stands : s.standing = ⟨.awaitingTransfer, none, none⟩) :
    Leads (checkAndStage d order brought) s fun more further after standing result =>
      MakesReady d order site u (calls ++ more) (said ++ further) after result ∧
        standing = ⟨result.phase, none, none⟩ := by
  cases ran : (checkDigest d brought).runOn s.site.files with
  | mk result files =>
    have same : files = s.site.files := by
      rw [← looks_checkDigest d brought s.site.files, ran]
    subst same
    apply Leads.perform_bind ran
    cases result with
    | ok checked => exact stageFile_leads brings (by rw [ran]) stands
    | error e =>
      apply endedFailed_leads e.message stands rfl
      simpa using (.refused brings (by rw [ran]) : MakesReady d order _ _ _ _ _ _)

theorem bringFile_leads (u : Update) : Leads (bringFile d u) s
    fun calls said site standing brought => ∃ answer,
      d.agent.transferFile u s.site = (answer, site) ∧
      calls = [⟨.transferFile u answer, s.site.files⟩] ∧
      said = [Report.progress u.release .transfer 0 false] ∧
      standing = s.standing ∧ brought = broughtBy u answer := by
  apply Leads.progress_bind (Nat.zero_le 100)
  cases answered : d.agent.transferFile u s.site with
  | mk answer after =>
    rw [← Station.site_offered s] at answered
    refine .ask_bind answered ?_
    cases answer with
    | ok outcome => exact .pure ⟨.ok outcome, rfl, by simp, rfl, by simp, rfl⟩
    | error e => exact .note_bind (.pure ⟨.error e, rfl, by simp, rfl, by simp, rfl⟩)

theorem stageBrought_leads {site : Site σ} {u : Update} {answer : Answer Transferred}
    (notBackup : u.isBackup = false) (answered : d.agent.transferFile u site = (answer, s.site))
    (stands : s.standing = ⟨.awaitingTransfer, none, none⟩) :
    Leads (stageBrought d order (broughtBy u answer)) s fun more further after standing result =>
      MakesReady d order site u ([⟨.transferFile u answer, site.files⟩] ++ more)
        ([Report.progress u.release .transfer 0 false] ++ further) after result ∧
        standing = ⟨result.phase, none, none⟩ := by
  unfold stageBrought
  by_cases success : (broughtBy u answer).transferred.getD 0 = 0
  · simp only [success, ne_eq, not_true_eq_false, if_false]
    cases answer with
    | error e => simp [broughtBy] at success
    | ok outcome =>
      apply Leads.progress_bind (Nat.le_refl 100)
      rw [release_broughtBy]
      have brings : Brings d site u _ _ _ _ := .transfer notBackup answered success
      rw [← Station.site_offered s] at brings
      exact checkAndStage_leads brings (by rwa [Station.standing_offered])
  · simp only [success, ne_eq, not_false_eq_true, if_true]
    refine endedFailed_leads _ stands rfl (.notBrought notBackup answered ?_)
    intro outcome same
    subst same
    exact success

theorem announce_leads (u : Update) : Leads (announce d order u) s
    fun calls said site standing _ => calls = [] ∧ said = announcing d order u ∧ site = s.site ∧
      standing = s.standing := by
  unfold announce announcing
  split
  · exact .report_bind fun _ => .pure ⟨rfl, rfl, by simp, by simp⟩
  · exact .pure ⟨rfl, rfl, rfl, rfl⟩

theorem makeReady_leads (u : Update) (stands : s.standing = ⟨.awaitingTransfer, none, none⟩) :
    Leads (makeReady d order u) s fun calls said site standing result =>
      (∃ further, said = announcing d order u ++ further ∧
        MakesReady d order s.site u calls further site result) ∧
        standing = ⟨result.phase, none, none⟩ := by
  apply Leads.bind (announce_leads u)
  intro _ _ _ next went
  obtain ⟨rfl, rfl, here, unmoved⟩ := went
  rw [← here]
  rw [stands] at unmoved
  split
  · rename_i isBackup
    apply (checkAndStage_leads (.backup isBackup) unmoved).imp
    intro calls said site standing result went
    obtain ⟨goes, left⟩ := went
    exact ⟨⟨said, rfl, goes⟩, left⟩
  · rename_i notBackup
    apply Leads.bind (bringFile_leads u)
    intro _ _ _ later went
    obtain ⟨answer, answered, rfl, rfl, still, rfl⟩ := went
    apply (stageBrought_leads (by simpa using notBackup) answered (still.trans unmoved)).imp
    intro more further site standing result went
    obtain ⟨goes, left⟩ := went
    exact ⟨⟨_, rfl, goes⟩, left⟩

theorem stage_leads (stands : s.standing = ⟨.awaitingTransfer, none, none⟩) :
    Leads (stage d order) s fun calls said site standing result =>
      Stages d order s.site calls said site result ∧ standing = ⟨result.phase, none, none⟩ := by
  apply Leads.files_bind
  cases plan : plan? d s.site.files order with
  | some u =>
    apply (makeReady_leads u stands).imp
    intro calls _ site standing result went
    obtain ⟨⟨said, rfl, goes⟩, left⟩ := went
    exact ⟨.planned plan goes, left⟩
  | none =>
    cases rollback : order.rollbackVersion with
    | some version =>
      exact askForDownload_leads version (by rw [stands]; rfl) ⟨.wanted plan rollback, rfl⟩
    | none => exact endedFailed_leads _ stands rfl (.missing plan rollback)

end Course
end OtaAgent
