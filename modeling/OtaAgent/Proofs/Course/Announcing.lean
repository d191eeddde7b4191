import OtaAgent.Proofs.Course.Conclusions
import OtaAgent.Proofs.Course.Suggestions

set_option autoImplicit false

namespace OtaAgent

variable {σ : Type}

def Event.order? : Event → Option Order
  | .prepare order | .install order => some order
  | _ => none

/-- The update that `order` asks for is not the one that is staged. -/
def Standing.IsNew (t : Standing) (order : Order) : Prop :=
  t.resumed.staged.filter (·.isFor order) = none

namespace Course

def asking (d : Device σ) (release : Release) (version : String) : Json :=
  Report.status d.profile.handler release InstallStatus.rollback (rollbackRemarks version false)

/-- No file is offered for the version as one that was downloaded. -/
def Undownloaded (order : Order) (version : String) : Prop :=
  ∀ offer, order.offer? version = some offer → offer.downloaded = false

variable {d : Device σ} {order : Order} {site after : Site σ} {calls : List Call}
  {said : List Json} {release : Release} {version : String}

theorem target_of_rollback (rollback : order.rollbackVersion = some version) :
    order.target = version := by
  rw [Order.target, rollback]
  rfl

/-- Nothing can be planned for a rollback whose file is neither offered nor kept. -/
theorem plan?_eq_none_iff {t : Files.Tree} (rollback : order.rollbackVersion = some version) :
    plan? d t order = none ↔ order.offer? version = none ∧
      d.archive.backup? t order.release.name version = none := by
  unfold plan?
  rw [target_of_rollback rollback]
  cases order.offer? version <;> simp [rollback]

/-- A plan for a rollback says that the file was downloaded only if it was offered so. -/
theorem downloaded_of_plan {t : Files.Tree} {u : Update}
    (rollback : order.rollbackVersion = some version) (plan : plan? d t order = some u) :
    u.downloaded = false ↔ Undownloaded order version := by
  unfold plan? at plan
  rw [target_of_rollback rollback] at plan
  unfold Undownloaded
  cases offered : order.offer? version with
  | some offer =>
    rw [offered] at plan
    cases plan
    simp
  | none =>
    rw [offered] at plan
    simp only [rollback, Option.isSome_some, if_true, Option.map_eq_some_iff] at plan
    obtain ⟨backup, -, rfl⟩ := plan
    simp

theorem listed?_asking : Report.listed? (asking d release version) =
    some (.ofMembers [(version, .ofMembers [("downloaded", .bool false)])]) :=
  Report.listed?_status ..

/-- Where no envelope says anything of other versions, none asks for one. -/
theorem asking_notMem (unlisted : ∀ v ∈ said, Report.listed? v = none) :
    asking d release version ∉ said := by
  intro inside
  have quiet := unlisted _ inside
  rw [listed?_asking] at quiet
  cases quiet

/-- What is said of a rollback asks for a download if it says that the file was not downloaded. -/
theorem saying_eq_asking {other : String} {downloaded : Bool} :
    saying d order .rollback (rollbackRemarks other downloaded) = asking d release version ↔
      order.release = release ∧ other = version ∧ downloaded = false := by
  constructor
  · intro same
    have states := congrArg Report.stated? same
    have lists := congrArg Report.listed? same
    rw [listed?_asking, saying, Report.listed?_status] at lists
    rw [saying, asking, Report.stated?_status, Report.stated?_status] at states
    simp only [rollbackRemarks, Json.ofMembers, Table.ofList, List.foldl_cons, List.foldl_nil,
      Table.insert, Option.some.injEq, Json.object.injEq, List.cons.injEq, Prod.mk.injEq,
      Json.bool.injEq, and_true, true_and] at lists
    exact ⟨congrArg Prod.fst (Option.some.inj states), lists⟩
  · rintro ⟨rfl, rfl, rfl⟩
    rfl

theorem asking_mem_announcing {u : Update} : asking d release version ∈ announcing d order u ↔
    order.release = release ∧ order.rollbackVersion.isSome = true ∧ u.version = version ∧
      u.downloaded = false := by
  unfold announcing
  by_cases rollback : order.rollbackVersion.isSome
  · rw [if_pos rollback, List.mem_singleton, eq_comm, saying_eq_asking]
    simp [rollback]
  · rw [if_neg rollback]
    simp [rollback]

section Unlisted

theorem listed?_sayingFailed (t : Files.Tree) : Report.listed? (sayingFailed d order t) = none := by
  unfold sayingFailed saying failureRemarks
  split <;> simp

theorem Brings.unlisted {u brought : Update} (brings : Brings d site u calls said after brought) :
    ∀ v ∈ said, Report.listed? v = none := by
  cases brings <;> simp

theorem MakesReady.unlisted {u : Update} {result : Readiness}
    (goes : MakesReady d order site u calls said after result) :
    ∀ v ∈ said, Report.listed? v = none := by
  cases goes with
  | notBrought => simp [listed?_sayingFailed]
  | refused brings =>
    have before := brings.unlisted
    simpa [or_imp, forall_and, listed?_sayingFailed] using before
  | notStaged brings =>
    have before := brings.unlisted
    simpa [or_imp, forall_and, listed?_sayingFailed] using before
  | ready brings => exact brings.unlisted

theorem Ends.unlisted {previous : Option String} {u : Update} {reached status : InstallStatus}
    (ends : Ends d order previous u site reached calls said after status) :
    ∀ v ∈ said, Report.listed? v = none := by
  cases ends <;> simp [saying, listed?_sayingFailed]

theorem Installs.unlisted {previous : Option String} {u : Update} {status : InstallStatus}
    (installs : Installs d order previous u site calls said after status) :
    ∀ v ∈ said, Report.listed? v = none := by
  cases installs with
  | calledOff | notCleared => simp [saying, listed?_sayingFailed]
  | installed cleared answered ends =>
    have later := ends.unlisted
    simpa [saying] using later

theorem unlisted_dropping (t : Standing) : ∀ v ∈ dropping d t, Report.listed? v = none := by
  unfold dropping
  split <;> simp

theorem unlisted_takingUp (t : Standing) :
    ∀ v ∈ takingUp d t order, Report.listed? v = none := by
  unfold takingUp
  split
  · simp
  · exact unlisted_dropping t

theorem Offers.unlisted {t left : Standing} {status : DownloadStatus}
    (offers : Offers d t site release calls said after left status) :
    ∀ v ∈ said, Report.listed? v = none := by
  cases offers with
  | again => simp
  | asked =>
    have before : ∀ v ∈ offering d t, Report.listed? v = none := by
      unfold offering
      split
      · simp
      · exact unlisted_dropping t
    simpa [or_imp, forall_and] using before

end Unlisted

/-- The file of a rollback is asked for when it is staged, unless it was offered as downloaded. -/
theorem Stages.asks {result : Readiness} (stages : Stages d order site calls said after result) :
    asking d release version ∈ said ↔ order.release = release ∧
      order.rollbackVersion = some version ∧ Undownloaded order version := by
  cases stages with
  | missing unplanned ordinary =>
    have silent : asking d release version ∉ [sayingFailed d order site.files] :=
      asking_notMem (by simp [listed?_sayingFailed])
    simp [silent, ordinary]
  | @wanted wanted unplanned rollback =>
    have none_ := ((plan?_eq_none_iff rollback).mp unplanned).1
    rw [List.mem_singleton, eq_comm, saying_eq_asking, rollback, Option.some.injEq]
    constructor
    · rintro ⟨same, rfl, -⟩
      exact ⟨same, rfl, by simp [Undownloaded, none_]⟩
    · rintro ⟨same, here, -⟩
      exact ⟨same, here, rfl⟩
  | @planned u _ said _ _ plan goes =>
    have silent : asking d release version ∉ said := asking_notMem goes.unlisted
    have planned : u.version = order.target := congrArg Release.version (release_of_plan plan)
    rw [List.mem_append, or_iff_left silent, asking_mem_announcing, planned]
    constructor
    · rintro ⟨same, isSome, here, downloaded⟩
      obtain ⟨other, rollback⟩ := Option.isSome_iff_exists.mp isSome
      obtain rfl : other = version := (target_of_rollback rollback).symm.trans here
      exact ⟨same, rollback, (downloaded_of_plan rollback plan).mp downloaded⟩
    · rintro ⟨same, rollback, undownloaded⟩
      exact ⟨same, by simp [rollback], target_of_rollback rollback,
        (downloaded_of_plan rollback plan).mpr undownloaded⟩

/-- Staging a rollback leaves the course idle if its file is nowhere to be found. -/
theorem Stages.idle_iff {result : Readiness} (rollback : order.rollbackVersion = some version)
    (stages : Stages d order site calls said after result) :
    result.phase = .idle ↔ order.offer? version = none ∧
      d.archive.backup? site.files order.release.name version = none := by
  rw [← plan?_eq_none_iff rollback]
  cases stages with
  | missing unplanned ordinary => simp [rollback] at ordinary
  | wanted unplanned => simp [Readiness.phase, unplanned]
  | planned plan goes =>
    cases goes <;> simp [Readiness.phase, plan]

theorem endPhase_ne_idle (status : InstallStatus) : status.endPhase ≠ .idle := by
  cases status <;> nofun

/-- What the ways of dealing with an event say of the file of a rollback. -/
structure AsksFor (d : Device σ) (t : Standing) (site : Site σ) (e : Event) (said : List Json)
    (phase : Phase) : Prop where
  /-- The file is asked for if an order for the rollback is taken up that does not offer the file as
  downloaded. -/
  asks : ∀ release version, asking d release version ∈ said ↔ ∃ order, e.order? = some order ∧
    order.release = release ∧ order.rollbackVersion = some version ∧ t.IsNew order ∧
    Undownloaded order version
  /-- The course becomes idle if the file is nowhere to be found. -/
  idle : ∀ order version, e.order? = some order → order.rollbackVersion = some version →
    t.IsNew order → (phase = .idle ↔ order.offer? version = none ∧
      d.archive.backup? site.files order.release.name version = none)

section Deals

variable {t left : Standing}

theorem asksFor_of_unlisted {e : Event} {phase : Phase}
    (unlisted : ∀ v ∈ said, Report.listed? v = none)
    (settled : ∀ order, e.order? = some order → ¬ t.IsNew order) :
    AsksFor d t site e said phase := by
  refine ⟨?_, ?_⟩
  · intro release version
    refine iff_of_false (asking_notMem unlisted) ?_
    rintro ⟨order, here, -, -, new, -⟩
    exact settled order here new
  · intro order version here _ new
    exact absurd new (settled order here)

theorem asksFor_of_stages {e : Event} {said more : List Json} {phase : Phase} {result : Readiness}
    (about : e.order? = some order) (new : t.IsNew order)
    (stages : Stages d order site calls said after result)
    (unlisted : ∀ v ∈ more, Report.listed? v = none)
    (left : phase = .idle ↔ result.phase = .idle) :
    AsksFor d t site e (takingUp d t.resumed order ++ (said ++ more)) phase := by
  refine ⟨?_, ?_⟩
  · intro release version
    have before : asking d release version ∉ takingUp d t.resumed order :=
      asking_notMem (unlisted_takingUp t.resumed)
    have later : asking d release version ∉ more := asking_notMem unlisted
    rw [List.mem_append, or_iff_right before, List.mem_append, or_iff_left later, stages.asks]
    constructor
    · rintro ⟨same, rollback, undownloaded⟩
      exact ⟨order, about, same, rollback, new, undownloaded⟩
    · rintro ⟨other, here, same, rollback, -, undownloaded⟩
      obtain rfl : order = other := Option.some.inj (about.symm.trans here)
      exact ⟨same, rollback, undownloaded⟩
  · intro other version here rollback _
    obtain rfl : order = other := Option.some.inj (about.symm.trans here)
    rw [left]
    exact stages.idle_iff rollback

theorem not_isNew {u : Update} (found : t.resumed.staged = some u) (isFor : u.isFor order = true) :
    ¬ t.IsNew order := by
  simp [Standing.IsNew, found, Option.filter, isFor]

theorem Deals.asksFor {e : Event} {status : Option Status}
    (goes : Deals d t site e calls said after left status) :
    AsksFor d t site e said left.phase := by
  cases goes with
  | confirmed | downloading | unhandled =>
    exact asksFor_of_unlisted (by simp) (by simp [Event.order?])
  | @query _ _ _ answer =>
    refine asksFor_of_unlisted ?_ (by simp [Event.order?])
    cases answer <;> simp [replying]
  | offered offers => exact asksFor_of_unlisted offers.unlisted (by simp [Event.order?])
  | prepare prepares => cases prepares with
    | again found isFor =>
      refine asksFor_of_unlisted (by simp [saying]) ?_
      rintro _ ⟨⟩
      exact not_isNew found isFor
    | staged new stages =>
      exact asksFor_of_stages rfl new stages (by simp [saying]) (by simp [Readiness.phase])
    | ended new stages =>
      rw [← List.append_nil (_ ++ _), List.append_assoc]
      exact asksFor_of_stages rfl new stages (by simp) .rfl
  | install carriesOut => cases carriesOut with
    | staged found isFor installs =>
      refine asksFor_of_unlisted installs.unlisted ?_
      rintro _ ⟨⟩
      exact not_isNew found isFor
    | inline new stages installs =>
      refine asksFor_of_stages rfl new stages installs.unlisted ?_
      simp [Readiness.phase, endPhase_ne_idle]
    | ended new stages =>
      rw [← List.append_nil (_ ++ _), List.append_assoc]
      exact asksFor_of_stages rfl new stages (by simp) .rfl

end Deals

/-- The download of a file is asked for whenever an order for a rollback is taken up that does not
offer the file as downloaded, also if there is a backup; the course goes back to idle only if there
is neither. -/
theorem answer_asksFor {s : Station σ} (reached : Reachable d s) (e : Event) :
    Ensures (answer d e) s fun _ after => ∃ said, after.outbox = s.outbox.sendAll said ∧
      AsksFor d s.standing s.site e said after.phase := by
  apply Ensures.imp (answer_leads e reached.atRest)
  intro _ after led
  obtain ⟨calls, said, goes, -, sent⟩ := led
  exact ⟨said, sent, goes.asksFor⟩

/-- A rollback is ordered to a version of which there is a backup. -/
theorem answer_asksFor_backup :
    let d : Device Unit := ⟨.minimal, ⟨⟨"/v"⟩, ⟨"/b"⟩⟩, ⟨"ecu", none, true⟩⟩
    let s : Station Unit := .fresh () keepingTwo .accepting
    let e := Event.prepare ⟨⟨"app", "3"⟩, "ecu", [], some "1", []⟩
    Reachable d s ∧ Ensures (answer d e) s fun _ after => ∃ said,
      after.outbox = s.outbox.sendAll said ∧ AsksFor d s.standing s.site e said after.phase := by
  intro d s e
  have reached : Reachable d s := .fresh () keepingTwo .accepting
  exact ⟨reached, answer_asksFor reached e⟩

/-- An order for a rollback that comes with no files asks for the download of the version it goes
back to, and leaves the course idle if there is no backup of it. -/
theorem fresh_asks {own : σ} {t : Files.Tree} (bare : order.offers = [])
    (rollback : order.rollbackVersion = some version) :
    Ensures (answer d (.prepare order)) (.fresh own t .accepting) fun _ after =>
      asking d order.release version ∈ after.outbox.sent ∧
        (after.phase = .idle ↔ d.archive.backup? t order.release.name version = none) := by
  have rest : (Station.fresh own t .accepting).standing.AtRest := .idle
  apply Ensures.imp (answer_leads _ rest)
  intro _ after led
  obtain ⟨calls, said, goes, -, sent⟩ := led
  have asksFor := goes.asksFor
  have accepts : Outbox.accepting.Accepts := fun _ => rfl
  have unoffered := offer?_of_bare bare version
  refine ⟨?_, ?_⟩
  · rw [sent]
    apply (accepts.sendAll said).symm ▸ List.mem_append_right _ _
    refine (asksFor.asks _ _).mpr ⟨order, rfl, rfl, rollback, rfl, ?_⟩
    simp [Undownloaded, unoffered]
  · refine (asksFor.idle order version rfl rollback rfl).trans ?_
    exact and_iff_right unoffered

/-- With a backup of the version and without one the same envelope is sent; with the backup the
update goes on, and without it the update is left. -/
theorem asks_withBackup :
    let d : Device Unit := ⟨.minimal, ⟨⟨"/v"⟩, ⟨"/b"⟩⟩, ⟨"ecu", none, true⟩⟩
    let order : Order := ⟨⟨"app", "3"⟩, "ecu", [], some "1", []⟩
    let kept : Station Unit := .fresh () keepingTwo .accepting
    let empty : Station Unit := .fresh () (.empty []) .accepting
    (d.archive.backup? keepingTwo "app" "1").isSome = true ∧
      d.archive.backup? (.empty []) "app" "1" = none ∧
      Ensures (answer d (.prepare order)) kept (fun _ after =>
        asking d order.release "1" ∈ after.outbox.sent ∧ after.phase ≠ .idle) ∧
      Ensures (answer d (.prepare order)) empty fun _ after =>
        asking d order.release "1" ∈ after.outbox.sent ∧ after.phase = .idle := by
  intro d order kept empty
  have here : (d.archive.backup? keepingTwo "app" "1").isSome = true := by
    rw [Archive.backup?, get?_keepingTwo]
    decide +kernel
  have nowhere : d.archive.backup? (.empty []) "app" "1" = none := by decide +kernel
  refine ⟨here, nowhere, (fresh_asks rfl rfl).imp ?_, (fresh_asks rfl rfl).imp ?_⟩
  · intro _ after went
    refine ⟨went.1, fun idle => ?_⟩
    rw [went.2.mp idle] at here
    cases here
  · intro _ after went
    exact ⟨went.1, went.2.mpr nowhere⟩

end Course
end OtaAgent
