import OtaAgent.Proofs.Archive.Effects
import OtaAgent.Proofs.Course.Reachable

set_option autoImplicit false

namespace OtaAgent

open Files

variable {σ : Type}

/-- The hook writes nothing below the directory of the histories. -/
def Deed.Spares {α : Type} (archive : Archive) (hook : Deed σ α) : Prop :=
  ∀ site, archive.Same site.files (hook site).2.files

theorem Deed.Spares.same {α : Type} {archive : Archive} {hook : Deed σ α} {site after : Site σ}
    {result : α} (spares : Deed.Spares archive hook) (did : hook site = (result, after)) :
    archive.Same site.files after.files := by
  have same := spares site
  rwa [did] at same

/-- On `site` the agent records what `r` speaks of as an agent does by default. -/
def Device.RecordsAt (d : Device σ) (r : Receipt) (site : Site σ) : Prop :=
  (d.agent.setVersion d.archive r site).1 = (Hook.recording d.archive r site).1 ∧
    (d.agent.setVersion d.archive r site).2.files = (Hook.recording d.archive r site).2.files

/-- The hooks write nothing below the directory of the histories, but for recording installs as an
agent does by default. -/
structure Device.SparesHistories (d : Device σ) : Prop where
  confirmDownload : ∀ release, Deed.Spares d.archive (d.agent.confirmDownload release)
  transferFile : ∀ u, Deed.Spares d.archive (d.agent.transferFile u)
  prepareInstall : ∀ u, Deed.Spares d.archive (d.agent.prepareInstall u)
  preInstall : ∀ u, Deed.Spares d.archive (d.agent.preInstall u)
  install : ∀ u, Deed.Spares d.archive (d.agent.install u)
  setVersion : ∀ r site, d.RecordsAt r site ∨
    d.archive.Same site.files (d.agent.setVersion d.archive r site).2.files
  postInstall : ∀ package, Deed.Spares d.archive (d.agent.postInstall package)
  getVersion : ∀ package, Deed.Spares d.archive (d.agent.getVersion d.archive package)

/-- The agent leaves the update that it installs one of the same release. It may name a version to
fall back to, or another file. -/
def Agent.KeepsRelease (agent : Agent σ) : Prop :=
  ∀ u site, (agent.install u site).1.update.release = u.release

theorem sparesHistories_minimal (archive : Archive) (profile : Profile) :
    Device.SparesHistories ⟨.minimal, archive, profile⟩ where
  confirmDownload _ _ := .refl _
  transferFile _ _ := .refl _
  prepareInstall _ _ := .refl _
  preInstall _ _ := .refl _
  install _ _ := .refl _
  setVersion _ _ := .inl ⟨rfl, rfl⟩
  postInstall _ _ := .refl _
  getVersion _ _ := .refl _

namespace Course

def CameTo (calls : List Call) (u : Update) (installed : Installed) : Prop :=
  ∃ found, (⟨.install u installed, found⟩ : Call) ∈ calls

def Answered (calls : List Call) (status : InstallStatus) : Prop :=
  ∃ u installed, CameTo calls u installed ∧ installed.answer = .ok status

/-- What becomes of the histories when the agent sets a version on `site` as `r` says. -/
structure Sets (d : Device σ) (t next : Tree) (r : Receipt) (site : Site σ) : Prop where
  recorded : d.RecordsAt r site → d.archive.BacksUpOutside site.files r →
    (d.agent.setVersion d.archive r site).1 = .ok () → d.archive.Installed t next r
  refused : d.RecordsAt r site → d.archive.BacksUpOutside site.files r →
    (d.agent.setVersion d.archive r site).1 ≠ .ok () → d.archive.Unchanged t next r.package
  spared : ¬ d.RecordsAt r site → d.archive.Same t next

/-- What becomes of the histories when an install comes to a status and leaves an update of
`release`. -/
def Follows (d : Device σ) (release : Release) (t next : Tree) (calls : List Call) (phase : Phase) :
    InstallStatus → Prop
  | .completed => phase = .completed ∧ ∃ r site, r.package = release.name ∧
      r.version = release.version ∧ Sets d t next r site ∧
      ⟨.setVersion r (d.agent.setVersion d.archive r site).1, site.files⟩ ∈ calls
  | .rollback =>
    phase = .rolledBack ∧ (∃ version, d.archive.WentBack t next release.name version) ∨
      phase = .failed ∧ d.archive.Unchanged t next release.name
  | _ => d.archive.Same t next

/-- What becomes of the histories when an event is dealt with. They follow the update as its install
leaves it, which is of the release that was ordered unless the agent makes another one of it. -/
structure Histories (d : Device σ) (e : Event) (t next : Tree) (calls : List Call) (phase : Phase) :
    Prop where
  same : (∀ order, e = .install order → ¬ Answered calls .completed ∧ ¬ Answered calls .rollback) →
    d.archive.Same t next
  follows : ∀ order u installed, e = .install order → CameTo calls u installed →
    Follows d installed.update.release t next calls phase installed.status
  ordered : ∀ order u installed, e = .install order → CameTo calls u installed →
    d.agent.KeepsRelease → installed.update.release = order.targetRelease

variable {d : Device σ} {order : Order} {t middle next : Tree} {site after : Site σ} {u : Update}
  {calls : List Call} {said : List Json} {phase : Phase}

theorem runOn_recording (archive : Archive) (r : Receipt) (site : Site σ) :
    Hook.recording archive r site = match (archive.record r).runOn site.files with
      | (.ok _, files) => (.ok (), { site with files })
      | (.error e, files) => (.error (.error e), { site with files }) := by
  unfold Hook.recording Hook.ofJob
  rw [Job.runOn_bind]
  cases (archive.record r).runOn site.files with
  | mk result files => cases result <;> rfl

theorem files_recording (archive : Archive) (r : Receipt) (site : Site σ) :
    (Hook.recording archive r site).2.files = ((archive.record r).runOn site.files).2 := by
  rw [runOn_recording]
  cases (archive.record r).runOn site.files with
  | mk result files => cases result <;> rfl

/-- What setting a version makes of the histories is what is found once the install has been
told. -/
theorem sets_of_spares (spares : d.SparesHistories) (r : Receipt) (site : Site σ)
    (rest : d.archive.Same (d.agent.setVersion d.archive r site).2.files next) :
    Sets d site.files next r site := by
  have runs := runOn_recording d.archive r site
  cases ran : (d.archive.record r).runOn site.files with
  | mk result files =>
    rw [ran] at runs
    refine ⟨?_, ?_, ?_⟩
    · intro records outside ok
      obtain ⟨answered, left⟩ := records
      rw [left] at rest
      rw [answered] at ok
      cases result with
      | ok history =>
        simp only at runs
        rw [runs] at rest
        exact (Archive.installed_of_record outside ran).around (.refl _) rest
      | error e =>
        simp only at runs
        rw [runs] at ok
        cases ok
    · intro records outside refused
      obtain ⟨answered, left⟩ := records
      rw [left] at rest
      rw [answered] at refused
      cases result with
      | ok history =>
        simp only at runs
        rw [runs] at refused
        exact absurd rfl refused
      | error e =>
        simp only at runs
        rw [runs] at rest
        exact (Archive.unchanged_of_record outside ran).around (.refl _) rest
    · intro unrecorded
      exact ((spares.setVersion r site).resolve_left unrecorded).trans rest

section Stages

variable {brought : Update} {result : Readiness}

theorem Brings.same (spares : d.SparesHistories)
    (brings : Brings d site u calls said after brought) :
    d.archive.Same site.files after.files := by
  cases brings with
  | backup isBackup => exact .refl _
  | transfer notBackup answered success => exact (spares.transferFile u).same answered

theorem MakesReady.same (spares : d.SparesHistories)
    (goes : MakesReady d order site u calls said after result) :
    d.archive.Same site.files after.files := by
  cases goes with
  | notBrought notBackup answered failed => exact (spares.transferFile u).same answered
  | refused brings mismatch => exact brings.same spares
  | notStaged brings checked answered failed =>
    exact (brings.same spares).trans ((spares.prepareInstall _).same answered)
  | ready brings checked answered =>
    exact (brings.same spares).trans ((spares.prepareInstall _).same answered)

theorem Stages.same (spares : d.SparesHistories)
    (stages : Stages d order site calls said after result) :
    d.archive.Same site.files after.files := by
  cases stages with
  | missing | wanted => exact .refl _
  | planned plan goes => exact goes.same spares

theorem not_cameTo_of_brings {answer : Answer Prepared} {found : Tree} {v : Update}
    {installed : Installed} (brings : Brings d site u calls said after brought) :
    ¬ CameTo (calls ++ [⟨.prepareInstall brought answer, found⟩]) v installed := by
  cases brings <;> simp [CameTo]

theorem Stages.not_cameTo (stages : Stages d order site calls said after result) (v : Update)
    (installed : Installed) : ¬ CameTo calls v installed := by
  cases stages with
  | missing | wanted => simp [CameTo]
  | planned plan goes => cases goes with
    | notBrought => simp [CameTo]
    | refused brings mismatch => cases brings <;> simp [CameTo]
    | notStaged brings checked answered failed => exact not_cameTo_of_brings brings
    | ready brings checked answered => exact not_cameTo_of_brings brings

theorem release_of_plan {found : Tree} (plan : plan? d found order = some u) :
    u.release = order.targetRelease := by
  unfold plan? at plan
  split at plan
  · cases plan
    rfl
  · split at plan
    · obtain ⟨backup, -, rfl⟩ := Option.map_eq_some_iff.mp plan
      rfl
    · cases plan

theorem Stages.release (stages : Stages d order site calls said after (.ready u)) :
    u.release = order.targetRelease := by
  cases stages with
  | planned plan goes => cases goes with
    | ready brings checked answered =>
      apply (Update.release_relocated _ _).trans
      cases brings with
      | backup => exact release_of_plan plan
      | transfer => exact (release_broughtBy ..).trans (release_of_plan plan)

end Stages

section Installs

variable {previous : Option String} {reached status : InstallStatus}

/-- What follows an answer is the same if nothing had changed before. -/
theorem Follows.of_same {release : Release} {before : Tree} {more : List Call}
    (first : d.archive.Same before t) (follows : Follows d release t next calls phase reached)
    (within : calls ⊆ more) : Follows d release before next more phase reached := by
  cases reached with
  | completed =>
    obtain ⟨finished, r, site, package, version, sets, made⟩ := follows
    refine ⟨finished, r, site, package, version, ?_, within made⟩
    exact ⟨fun records outside ok => (sets.recorded records outside ok).around first (.refl _),
      fun records outside refused => (sets.refused records outside refused).around first (.refl _),
      fun spared => first.trans (sets.spared spared)⟩
  | rollback =>
    rcases follows with ⟨back, version, went⟩ | ⟨failed, unchanged⟩
    · exact .inl ⟨back, version, went.after first⟩
    · exact .inr ⟨failed, unchanged.around first (.refl _)⟩
  | _ => exact first.trans follows

theorem Ends.follows (spares : d.SparesHistories)
    (ends : Ends d order previous u site reached calls said after status) :
    Follows d u.release site.files after.files calls status.endPhase reached := by
  cases ends with
  | completed recording telling =>
    rename_i recorded told middle
    have rest := (spares.postInstall _).same telling
    refine ⟨rfl, receiptOf site.files u, site, rfl, rfl, ?_, by simp [recording]⟩
    apply sets_of_spares spares _ site
    rwa [recording]
  | noTarget unknown => exact .inr ⟨rfl, (Archive.Same.refl _).unchanged _⟩
  | notRestored target refused => exact .inr ⟨rfl, Archive.unchanged_of_reinstate refused⟩
  | restored target restoring => exact .inl ⟨rfl, _, Archive.wentBack_of_reinstate restoring⟩
  | aborted => exact Archive.Same.refl _
  | failed notCompleted notRollback notAborted =>
    cases reached with
    | completed => exact absurd rfl notCompleted
    | rollback => exact absurd rfl notRollback
    | _ => exact Archive.Same.refl _

theorem Ends.not_cameTo (ends : Ends d order previous u site reached calls said after status)
    (v : Update) (installed : Installed) : ¬ CameTo calls v installed := by
  cases ends <;> simp [CameTo]

/-- The histories stay as they are, or follow the one install that there is. -/
inductive Obeys (d : Device σ) (order : Order) (t next : Tree) (calls : List Call) (phase : Phase) :
    Prop
  | quiet (same : d.archive.Same t next) (none_ : ∀ v installed, ¬ CameTo calls v installed)
  | follows {u : Update} {site after : Site σ} {installed : Installed}
      (release : u.release = order.targetRelease)
      (did : d.agent.install u site = (installed, after)) (came : CameTo calls u installed)
      (only : ∀ v other, CameTo calls v other → other = installed)
      (follows : Follows d installed.update.release t next calls phase installed.status)

theorem Obeys.of_same {before : Tree} {earlier : List Call} (first : d.archive.Same before t)
    (none_ : ∀ v installed, ¬ CameTo earlier v installed)
    (obeys : Obeys d order t next calls phase) :
    Obeys d order before next (earlier ++ calls) phase := by
  have later {v : Update} {installed : Installed} (came : CameTo (earlier ++ calls) v installed) :
      CameTo calls v installed := by
    obtain ⟨found, made⟩ := came
    exact ⟨found, (List.mem_append.mp made).resolve_left fun early => none_ _ _ ⟨found, early⟩⟩
  cases obeys with
  | quiet same others =>
    exact .quiet (first.trans same) fun v installed came => others v installed (later came)
  | follows release did came only follows =>
    obtain ⟨found, made⟩ := came
    exact .follows release did ⟨found, List.mem_append_right _ made⟩
      (fun v other came => only v other (later came))
      (follows.of_same first (List.subset_append_right _ _))

theorem Installs.obeys (spares : d.SparesHistories) (release : u.release = order.targetRelease)
    (installs : Installs d order previous u site calls said after status) :
    Obeys d order site.files after.files calls status.endPhase := by
  cases installs with
  | calledOff answered | notCleared answered =>
    exact .quiet ((spares.preInstall u).same answered) (by simp [CameTo])
  | installed cleared did ends =>
    rename_i middle later calls said
    have first := ((spares.preInstall u).same cleared).trans ((spares.install u).same did)
    refine .follows release did ⟨middle.files, by simp⟩ ?_
      ((ends.follows spares).of_same first (by simp))
    rintro v other ⟨found, made⟩
    simp only [List.mem_cons] at made
    rcases made with pre | here | later
    · simp at pre
    · exact (by simpa using congrArg Call.hook here : v = u ∧ other = _).2
    · exact absurd ⟨found, later⟩ (ends.not_cameTo v other)

theorem CarriesOut.obeys {standing left : Standing} (spares : d.SparesHistories)
    (carriesOut : CarriesOut d standing site order calls said after left status) :
    Obeys d order site.files after.files calls left.phase := by
  cases carriesOut with
  | staged found isFor installs => exact installs.obeys spares (eq_of_beq isFor)
  | inline new stages installs =>
    exact (installs.obeys spares stages.release).of_same (stages.same spares) stages.not_cameTo
  | ended new stages => exact .quiet (stages.same spares) stages.not_cameTo

end Installs

theorem histories_of_same {e : Event} (other : ∀ order, e ≠ .install order)
    (same : d.archive.Same t next) : Histories d e t next calls phase where
  same _ := same
  follows order _ _ here := absurd here (other order)
  ordered order _ _ here := absurd here (other order)

theorem Obeys.histories (obeys : Obeys d order t next calls phase) :
    Histories d (.install order) t next calls phase := by
  cases obeys with
  | quiet same none_ =>
    exact ⟨fun _ => same, fun _ v installed _ came => absurd came (none_ v installed),
      fun _ v installed _ came => absurd came (none_ v installed)⟩
  | @follows u site after installed release did came only follows =>
    refine ⟨fun quiet => ?_, fun _ v other _ came => ?_, fun _ v other here came keeps => ?_⟩
    · obtain ⟨notCompleted, notRollback⟩ := quiet order rfl
      have answered {status : InstallStatus} (came' : installed.status = status)
          (notFailed : status ≠ .failed) : Answered calls status :=
        ⟨u, installed, came, Answer.eq_ok_of_status came' notFailed⟩
      cases reached : installed.status with
      | completed => exact absurd (answered reached nofun) notCompleted
      | rollback => exact absurd (answered reached nofun) notRollback
      | _ =>
        rw [reached] at follows
        exact follows
    · rw [only v other came]
      exact follows
    · cases here
      have kept := keeps u site
      rw [did] at kept
      rw [only v other came, kept, release]

theorem Deals.histories {e : Event} {standing left : Standing} {status : Option Status}
    (spares : d.SparesHistories) (goes : Deals d standing site e calls said after left status) :
    Histories d e site.files after.files calls left.phase := by
  cases goes with
  | query answered => exact histories_of_same nofun ((spares.getVersion _).same answered)
  | offered offers => cases offers with
    | again agreed => exact histories_of_same nofun (.refl _)
    | asked new answered => exact histories_of_same nofun ((spares.confirmDownload _).same answered)
  | prepare prepares => cases prepares with
    | again found isFor => exact histories_of_same nofun (.refl _)
    | staged new stages | ended new stages => exact histories_of_same nofun (stages.same spares)
  | install carriesOut => exact (carriesOut.obeys spares).histories
  | confirmed | downloading | unhandled => exact histories_of_same nofun (.refl _)

theorem deal_histories {s : Station σ} (spares : d.SparesHistories) (reached : Reachable d s)
    (e : Event) : Ensures (deal d e) s fun _ after => ∃ calls, after.calls = s.calls ++ calls ∧
      Histories d e s.site.files after.site.files calls after.phase := by
  apply Ensures.imp (deal_leads e reached.atRest)
  intro _ after led
  obtain ⟨calls, said, ⟨status, goes⟩, made, -⟩ := led
  exact ⟨calls, made, goes.histories spares⟩

end Course
end OtaAgent
