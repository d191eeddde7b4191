import OtaAgent.Proofs.Course.Announcing
import OtaAgent.Proofs.Course.Departing

set_option autoImplicit false

namespace OtaAgent

variable {σ : Type}

def Event.target? : Event → Option Release
  | .offered _ release => some release
  | .prepare order | .install order => some order.targetRelease
  | _ => none

/-- The call of a hook that an update is staged by. -/
def HookCall.isStaging : HookCall → Bool
  | .transferFile .. | .prepareInstall .. => true
  | _ => false

namespace Course

open Standing

/-- A release was reported as aborted before the event was answered: another one took its place. -/
def Superseded (said : List Json) (release : Release) : Prop :=
  ∃ v ∈ said.dropLast, Report.stated? v = some (release, .install .aborted)

/-- The event takes the update that it is to bring for another one. -/
inductive Mistakes (t : Standing) (release : Release) : Event → Prop
  | offered (handler : String) (staged : t.staged.isSome = true) :
      Mistakes t release (.offered handler release)
  | ordered {e : Event} {order : Order} (awaited : t.awaited.isSome = true)
      (ordered : e.order? = some order) (other : order.release ≠ release) : Mistakes t release e

/-- An order goes on with the update that is staged for it: preparing it leaves it as it is, and
installing it begins with the check of the agent, with nothing staged again. -/
inductive Continues (t left : Standing) (u : Update) (calls : List Call) : Event → Prop
  | prepare (order : Order) (unmoved : left = t) (quiet : calls = []) :
      Continues t left u calls (.prepare order)
  | install {answer : Answer InstallStatus} {found : Files.Tree} {more : List Call} (order : Order)
      (begins : calls = ⟨.preInstall u answer, found⟩ :: more)
      (once : ∀ call ∈ more, call.hook.isStaging = false) :
      Continues t left u calls (.install order)

section Said

variable {d : Device σ} {order : Order} {site after : Site σ} {calls : List Call}
  {said more : List Json} {release : Release} {t left : Standing}

def Unaborted (said : List Json) : Prop :=
  ∀ v ∈ said, ∀ release, Report.stated? v ≠ some (release, .install .aborted)

theorem Unaborted.append (first : Unaborted said) (second : Unaborted more) :
    Unaborted (said ++ more) := by
  intro v inside
  obtain here | there := List.mem_append.mp inside
  · exact first v here
  · exact second v there

theorem Unaborted.dropLast (unaborted : Unaborted said) : Unaborted said.dropLast :=
  fun v inside => unaborted v (List.dropLast_subset said inside)

theorem unaborted_nil : Unaborted [] := nofun

theorem Unaborted.saying {status : InstallStatus} {remarks : Remarks} (rest : Unaborted said)
    (going : status ≠ .aborted) : Unaborted (saying d order status remarks :: said) := by
  refine List.forall_mem_cons.mpr ⟨fun release => ?_, rest⟩
  rw [Course.saying, Report.stated?_status]
  rintro ⟨⟩
  exact going rfl

theorem Unaborted.progress {stage : Stage} {percent : Nat} {indeterminate : Bool}
    (rest : Unaborted said) :
    Unaborted (Report.progress release stage percent indeterminate :: said) := by
  refine List.forall_mem_cons.mpr ⟨fun other => ?_, rest⟩
  rw [Report.stated?_progress]
  nofun

theorem unaborted_sayingFailed (t : Files.Tree) : Unaborted [sayingFailed d order t] :=
  .saying unaborted_nil nofun

theorem unaborted_announcing (u : Update) : Unaborted (announcing d order u) := by
  unfold announcing
  split
  · exact .saying unaborted_nil nofun
  · exact unaborted_nil

theorem Brings.unaborted {u brought : Update} (brings : Brings d site u calls said after brought) :
    Unaborted said := by
  cases brings with
  | backup => exact unaborted_nil
  | transfer => exact unaborted_nil.progress.progress

theorem MakesReady.unaborted {u : Update} {result : Readiness}
    (goes : MakesReady d order site u calls said after result) : Unaborted said := by
  cases goes with
  | notBrought => exact (unaborted_sayingFailed _).progress
  | refused brings | notStaged brings => exact brings.unaborted.append (unaborted_sayingFailed _)
  | ready brings => exact brings.unaborted

theorem Stages.unaborted {result : Readiness}
    (stages : Stages d order site calls said after result) : Unaborted said := by
  cases stages with
  | missing => exact unaborted_sayingFailed _
  | wanted => exact .saying unaborted_nil nofun
  | planned plan goes => exact (unaborted_announcing _).append goes.unaborted

theorem Ends.singleton {previous : Option String} {u : Update} {reached status : InstallStatus}
    (ends : Ends d order previous u site reached calls said after status) : ∃ v, said = [v] := by
  cases ends <;> exact ⟨_, rfl⟩

/-- What is said of an install before its end does not abort it. -/
theorem Installs.unaborted {previous : Option String} {u : Update} {status : InstallStatus}
    (installs : Installs d order previous u site calls said after status) :
    Unaborted said.dropLast := by
  cases installs with
  | calledOff | notCleared => exact unaborted_nil
  | installed cleared answered ends =>
    obtain ⟨last, rfl⟩ := ends.singleton
    exact unaborted_nil.progress.saying nofun

theorem Unaborted.not_superseded {said : List Json} (unaborted : Unaborted said.dropLast) :
    ¬ Superseded said release :=
  fun ⟨v, inside, states⟩ => unaborted v inside release states

theorem not_superseded_singleton (v : Json) : ¬ Superseded [v] release :=
  Unaborted.not_superseded (show Unaborted [v].dropLast from unaborted_nil)

theorem ClosesWith.ne_nil {status : Status} (closes : ClosesWith said release status) :
    said ≠ [] := by
  obtain ⟨earlier, last, rfl, -⟩ := closes
  simp

/-- What is said when an update gives way supersedes it, whatever follows. -/
theorem superseded_dropping (under : t.Under release) (answered : more ≠ []) :
    Superseded (dropping d t ++ more) release := by
  have drops : dropping d t =
      [Report.status d.profile.handler release InstallStatus.aborted {}] := by
    cases under <;> rfl
  rw [drops, Superseded, List.dropLast_append_of_ne_nil answered]
  exact ⟨_, List.mem_append_left _ (List.mem_singleton.mpr rfl), Report.stated?_status ..⟩

theorem awaited_of_target (under : t.Under release) (same : order.targetRelease = release)
    (new : t.staged.filter (·.isFor order) = none) :
    t.awaited = some release ∧ t.staged = none := by
  cases under with
  | postponed | agreed => exact ⟨rfl, rfl⟩
  | staged u ready => simp [Update.isFor, same] at new

theorem superseded_takingUp {e : Event} (under : t.Under release)
    (same : order.targetRelease = release)
    (new : t.staged.filter (·.isFor order) = none) (ordered : e.order? = some order)
    (answered : more ≠ []) (unaborted : Unaborted more.dropLast) :
    Superseded (takingUp d t order ++ more) release ↔ Mistakes t release e := by
  obtain ⟨awaited, unstaged⟩ := awaited_of_target under same new
  unfold takingUp
  by_cases ours : order.release = release
  · rw [awaited, if_pos (congrArg some ours.symm), List.nil_append]
    refine iff_of_false unaborted.not_superseded ?_
    intro mistakes
    cases mistakes with
    | offered handler staged => simp [unstaged] at staged
    | ordered _ other differs =>
      obtain rfl := Option.some.inj (ordered.symm.trans other)
      exact differs ours
  · rw [awaited, if_neg fun here => ours (Option.some.inj here).symm]
    exact iff_of_true (superseded_dropping under answered)
      (.ordered (by simp [awaited]) ordered ours)

theorem Offers.superseded {status : DownloadStatus} (handler : String)
    (under : t.Under release) (offers : Offers d t site release calls said after left status) :
    Superseded said release ↔ Mistakes t release (.offered handler release) := by
  have notOrdered : t.staged = none → ¬ Mistakes t release (.offered handler release) := by
    intro unstaged mistakes
    cases mistakes with
    | offered handler staged => simp [unstaged] at staged
    | ordered awaited ordered => cases ordered
  cases offers with
  | again agreed =>
    subst agreed
    exact iff_of_false (not_superseded_singleton _) (notOrdered rfl)
  | asked new answered =>
    cases under with
    | postponed => exact iff_of_false (not_superseded_singleton _) (notOrdered rfl)
    | agreed => exact absurd rfl new
    | staged u ready =>
      exact iff_of_true (superseded_dropping (.staged u ready) (by simp)) (.offered handler rfl)

/-- Going on with the update that is staged for an order does not mistake it. -/
theorem not_mistakes_of_staged {e : Event} {u : Update} (under : t.Under release)
    (found : t.staged = some u) (ordered : e.order? = some order) : ¬ Mistakes t release e := by
  intro mistakes
  cases mistakes with
  | offered => cases ordered
  | ordered awaited =>
    cases under <;> cases found
    cases awaited

theorem Prepares.superseded {status : InstallStatus} (under : t.Under release)
    (same : order.targetRelease = release)
    (prepares : Prepares d t site order calls said after left status) :
    Superseded said release ↔ Mistakes t release (.prepare order) := by
  cases prepares with
  | again found isFor =>
    exact iff_of_false (not_superseded_singleton _) (not_mistakes_of_staged under found rfl)
  | staged new stages =>
    refine superseded_takingUp under same new rfl (by simp) ?_
    rw [List.dropLast_concat]
    exact stages.unaborted
  | ended new stages =>
    exact superseded_takingUp under same new rfl stages.closes.2.ne_nil stages.unaborted.dropLast

theorem CarriesOut.superseded {status : InstallStatus} (under : t.Under release)
    (same : order.targetRelease = release)
    (carriesOut : CarriesOut d t site order calls said after left status) :
    Superseded said release ↔ Mistakes t release (.install order) := by
  cases carriesOut with
  | staged found isFor installs =>
    exact iff_of_false installs.unaborted.not_superseded (not_mistakes_of_staged under found rfl)
  | inline new stages installs =>
    have answered := installs.closes.2.2.ne_nil
    refine superseded_takingUp under same new rfl (by simp [answered]) ?_
    rw [List.dropLast_append_of_ne_nil answered]
    exact stages.unaborted.append installs.unaborted
  | ended new stages =>
    exact superseded_takingUp under same new rfl stages.closes.2.ne_nil stages.unaborted.dropLast

theorem Ends.not_isStaging {previous : Option String} {u : Update} {reached status : InstallStatus}
    (ends : Ends d order previous u site reached calls said after status) :
    ∀ call ∈ calls, call.hook.isStaging = false := by
  cases ends <;> simp [HookCall.isStaging]

theorem Installs.continues {previous : Option String} {u : Update} {status : InstallStatus}
    (installs : Installs d order previous u site calls said after status) :
    Continues t left u calls (.install order) := by
  cases installs with
  | calledOff | notCleared => exact .install order rfl (by simp)
  | installed cleared answered ends =>
    exact .install order rfl (List.forall_mem_cons.mpr ⟨rfl, ends.not_isStaging⟩)

end Said

variable {d : Device σ} {release : Release}

theorem Deals.supersedes {t left : Standing} {site after : Site σ} {calls : List Call}
    {said : List Json} {e : Event} {status : Option Status} (under : t.Under release)
    (again : e.target? = some release)
    (goes : Deals d t site e calls said after left status) :
    (Superseded said release ↔ Mistakes t release e) ∧
      ∀ u order, t.staged = some u → e.order? = some order → Continues t left u calls e := by
  have resumed := under.resumed
  cases goes with
  | query | confirmed | downloading | unhandled => cases again
  | offered offers =>
    rw [resumed] at offers
    cases again
    exact ⟨offers.superseded _ under, fun _ _ _ ordered => by cases ordered⟩
  | prepare prepares =>
    rw [resumed] at prepares
    have same := Option.some.inj again
    refine ⟨prepares.superseded under same, ?_⟩
    intro u order found ordered
    cases prepares with
    | again => exact .prepare _ rfl rfl
    | staged new | ended new => cases found.symm.trans (awaited_of_target under same new).2
  | install carriesOut =>
    rw [resumed] at carriesOut
    have same := Option.some.inj again
    refine ⟨carriesOut.superseded under same, ?_⟩
    intro u order found ordered
    cases carriesOut with
    | staged other isFor installs =>
      obtain rfl := Option.some.inj (found.symm.trans other)
      exact installs.continues
    | inline new | ended new => cases found.symm.trans (awaited_of_target under same new).2

/-- The update under way takes its own place in two cases only: it is staged and is offered again,
or it is awaited and ordered as a rollback under another version. An order goes on with what is
staged for it, and stages nothing again. -/
theorem deal_supersedes {s : Station σ} (reached : Reachable d s) (accepts : s.outbox.Accepts)
    (here : s.standing.underWay = some release) {e : Event} (again : e.target? = some release) :
    Ensures (deal d e) s fun _ after => ∃ calls said, after.calls = s.calls ++ calls ∧
      after.outbox.sent = s.outbox.sent ++ said ∧
      (Superseded said release ↔ Mistakes s.standing release e) ∧
      ∀ u order, s.staged = some u → e.order? = some order →
        Continues s.standing after.standing u calls e := by
  apply Ensures.imp (deal_leads e reached.atRest)
  rintro _ after ⟨calls, said, ⟨status, goes⟩, made, sent⟩
  exact ⟨calls, said, made, by rw [sent, accepts.sendAll],
    goes.supersedes (reached.atRest.under here) again⟩

/-- An update is staged, and the order to prepare it comes again. -/
theorem deal_supersedes_again :
    let d : Device Unit := ⟨.minimal, ⟨⟨"/versions"⟩, ⟨"/backups"⟩⟩, ⟨"ecu", none, true⟩⟩
    let e := Event.prepare ⟨⟨"app", "2"⟩, "ecu", [⟨"2", ⟨"/app"⟩, none, true⟩], none, []⟩
    let s := (runOn (deal d e) (.fresh () (.empty []) .accepting)).2
    (Reachable d s ∧ s.outbox.Accepts ∧ s.standing.underWay = some ⟨"app", "2"⟩ ∧
        e.target? = some ⟨"app", "2"⟩) ∧
      Ensures (deal d e) s fun _ after => ∃ calls said, after.calls = s.calls ++ calls ∧
        after.outbox.sent = s.outbox.sent ++ said ∧
        (Superseded said ⟨"app", "2"⟩ ↔ Mistakes s.standing ⟨"app", "2"⟩ e) ∧
        ∀ u order, s.staged = some u → e.order? = some order →
          Continues s.standing after.standing u calls e :=
  have reached := .next (.fresh () (.empty []) .accepting) _
  ⟨⟨reached, fun _ => rfl, rfl, rfl⟩, deal_supersedes reached (fun _ => rfl) rfl rfl⟩

/-- An update that is staged is offered again, and one that is agreed to is ordered as a rollback
under another version: both are reported as aborted before they go on. -/
theorem superseded_itself :
    let d : Device Unit := ⟨.minimal, ⟨⟨"/versions"⟩, ⟨"/backups"⟩⟩, ⟨"ecu", none, true⟩⟩
    let fresh := Station.fresh () (.empty []) .accepting
    let order : Order := ⟨⟨"app", "2"⟩, "ecu", [⟨"2", ⟨"/app"⟩, none, true⟩], none, []⟩
    let back : Order := ⟨⟨"app", "3"⟩, "ecu", [⟨"2", ⟨"/app"⟩, none, true⟩], some "2", []⟩
    let offer := Event.offered "ecu" ⟨"app", "2"⟩
    let staged := (runOn (deal d (.prepare order)) fresh).2
    let agreed := (runOn (deal d offer) fresh).2
    let offeredAgain := (runOn (deal d offer) staged).2
    let ordered := (runOn (deal d (.prepare back)) agreed).2
    (Reachable d staged ∧ staged.standing.underWay = offer.target? ∧
      Superseded (offeredAgain.outbox.sent.drop staged.outbox.sent.length) ⟨"app", "2"⟩ ∧
      offeredAgain.staged = none) ∧
    (Reachable d agreed ∧ agreed.standing.underWay = (Event.prepare back).target? ∧
      Superseded (ordered.outbox.sent.drop agreed.outbox.sent.length) ⟨"app", "2"⟩) := by
  refine ⟨⟨.next (.fresh ..) _, rfl, ?_, rfl⟩, .next (.fresh ..) _, rfl, ?_⟩
  · exact ⟨_, List.mem_cons_self .., Report.stated?_status "ecu" ⟨"app", "2"⟩ _ {}⟩
  · exact ⟨_, List.mem_cons_self .., Report.stated?_status "ecu" ⟨"app", "2"⟩ _ {}⟩

end Course
end OtaAgent
