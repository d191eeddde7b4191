import OtaAgent.Proofs.Course.Histories
import OtaAgent.Proofs.Report

set_option autoImplicit false

namespace OtaAgent

variable {σ : Type}

def Event.release? : Event → Option Release
  | .offered _ release => some release
  | .prepare order | .install order => some order.release
  | _ => none

def Outbox.Accepts (o : Outbox) : Prop := ∀ count, o.refusal count = none

theorem Outbox.Accepts.sendAll {o : Outbox} (accepts : o.Accepts) (vs : List Json) :
    (o.sendAll vs).sent = o.sent ++ vs := by
  induction vs generalizing o with
  | nil => exact (List.append_nil _).symm
  | cons v vs ih =>
    have taken : (o.send v).2 = { o with offered := o.offered + 1, sent := o.sent ++ [v] } := by
      rw [Outbox.send, accepts]
    have rest := ih (o := (o.send v).2) (by rw [taken]; exact accepts)
    rw [taken, List.append_assoc] at rest
    rw [← taken] at rest
    exact rest

namespace Course

variable {d : Device σ} {order : Order} {site after : Site σ} {calls : List Call}
  {said : List Json} {status : InstallStatus}

def ClosesWith (said : List Json) (release : Release) (status : Status) : Prop :=
  ∃ earlier last, said = earlier ++ [last] ∧ Report.stated? last = some (release, status)

theorem closesWith_report (earlier : List Json) (handler : String) (release : Release)
    (status : Status) (remarks : Remarks) :
    ClosesWith (earlier ++ [Report.status handler release status remarks]) release status :=
  ⟨earlier, _, rfl, Report.stated?_status ..⟩

theorem ClosesWith.prepend {release : Release} {status : Status}
    (closes : ClosesWith said release status) (before : List Json) :
    ClosesWith (before ++ said) release status := by
  obtain ⟨earlier, last, rfl, states⟩ := closes
  exact ⟨before ++ earlier, last, (List.append_assoc ..).symm, states⟩

theorem closesWith_saying (earlier : List Json) (status : InstallStatus) (remarks : Remarks) :
    ClosesWith (earlier ++ [saying d order status remarks]) order.release status :=
  closesWith_report ..

/-- The device manager has been asked to download the version of a rollback, before anything was
done. -/
def AskedFor (d : Device σ) (order : Order) (calls : List Call) (said : List Json) : Prop :=
  calls = [] ∧ ∃ version earlier, order.rollbackVersion = some version ∧
    said = earlier ++ [saying d order .rollback (rollbackRemarks version false)]

theorem AskedFor.prepend (asked : AskedFor d order calls said) (before : List Json) :
    AskedFor d order calls (before ++ said) := by
  obtain ⟨quiet, version, earlier, rollback, rfl⟩ := asked
  exact ⟨quiet, version, before ++ earlier, rollback, (List.append_assoc ..).symm⟩

/-- The statuses that an event is answered with, each with the phase that it stands for. An order to
install is answered by a rollback either because the install has asked for one or because the file
of one that was ordered is not here. -/
inductive StandsFor (d : Device σ) (calls : List Call) (said : List Json) :
    Event → Status → Phase → Prop
  | consent (handler : String) (release : Release) :
      StandsFor d calls said (.offered handler release) DownloadStatus.consent .awaitingTransfer
  | denied (handler : String) (release : Release) :
      StandsFor d calls said (.offered handler release) DownloadStatus.denied .idle
  | postponed (handler : String) (release : Release) :
      StandsFor d calls said (.offered handler release) DownloadStatus.postponed .confirmDownload
  | prepared (order : Order) :
      StandsFor d calls said (.prepare order) InstallStatus.ready .preInstall
  | notPrepared (order : Order) :
      StandsFor d calls said (.prepare order) InstallStatus.failed .failed
  | wanted {order : Order} (asked : AskedFor d order calls said) :
      StandsFor d calls said (.prepare order) InstallStatus.rollback .idle
  | completed (order : Order) :
      StandsFor d calls said (.install order) InstallStatus.completed .completed
  | failed (order : Order) :
      StandsFor d calls said (.install order) InstallStatus.failed .failed
  | aborted (order : Order) :
      StandsFor d calls said (.install order) InstallStatus.aborted .aborted
  | rolledBack (order : Order) (installed : Answered calls .rollback) :
      StandsFor d calls said (.install order) InstallStatus.rollback .rolledBack
  | wantedToInstall {order : Order} (asked : AskedFor d order calls said) :
      StandsFor d calls said (.install order) InstallStatus.rollback .idle

theorem MakesReady.closes {u : Update}
    (goes : MakesReady d order site u calls said after (.ended status)) :
    status = .failed ∧ ClosesWith said order.release status := by
  cases goes with
  | notBrought => exact ⟨rfl, closesWith_saying [_] ..⟩
  | refused | notStaged => exact ⟨rfl, closesWith_saying ..⟩

/-- Staging that does not get an update ready has failed, or asks for the file. -/
theorem Stages.closes (stages : Stages d order site calls said after (.ended status)) :
    (status = .failed ∨ status = .rollback ∧ AskedFor d order calls said) ∧
      ClosesWith said order.release status := by
  cases stages with
  | missing unplanned ordinary => exact ⟨.inl rfl, closesWith_saying [] ..⟩
  | wanted unplanned rollback =>
    exact ⟨.inr ⟨rfl, rfl, _, [], rollback, rfl⟩, closesWith_saying [] ..⟩
  | planned plan goes =>
    obtain ⟨failed, closes⟩ := goes.closes
    exact ⟨.inl failed, closes.prepend _⟩

def IsOutcome (status : InstallStatus) : Prop :=
  status = .completed ∨ status = .failed ∨ status = .aborted ∨ status = .rollback

theorem Ends.closes {previous : Option String} {u : Update} {reached : InstallStatus}
    (ends : Ends d order previous u site reached calls said after status) :
    IsOutcome status ∧ (status = .rollback → reached = .rollback) ∧
      ClosesWith said order.release status := by
  unfold IsOutcome
  cases ends with
  | completed | restored | aborted => exact ⟨by simp, by simp, closesWith_saying [] ..⟩
  | noTarget | notRestored | failed => exact ⟨by simp, by simp, closesWith_saying [] ..⟩

theorem Installs.closes {previous : Option String} {u : Update}
    (installs : Installs d order previous u site calls said after status) :
    IsOutcome status ∧ (status = .rollback → Answered calls .rollback) ∧
      ClosesWith said order.release status := by
  cases installs with
  | calledOff => exact ⟨.inr (.inr (.inl rfl)), nofun, closesWith_saying [] ..⟩
  | notCleared => exact ⟨.inr (.inl rfl), nofun, closesWith_saying [] ..⟩
  | installed cleared did ends =>
    rename_i installed middle later calls said
    obtain ⟨outcome, wanted, closes⟩ := ends.closes
    refine ⟨outcome, ?_, closes.prepend [_, _]⟩
    intro back
    exact ⟨u, installed, ⟨middle.files, by simp⟩, Answer.eq_ok_of_status (wanted back) nofun⟩

theorem Offers.concludes {t left : Standing} {release : Release} {status : DownloadStatus}
    (handler : String) (offers : Offers d t site release calls said after left status) :
    StandsFor d calls said (.offered handler release) status left.phase ∧
      ClosesWith said release status := by
  cases offers with
  | again agreed =>
    subst agreed
    exact ⟨.consent handler release, closesWith_report [] ..⟩
  | asked new answered =>
    rename_i answer
    refine ⟨?_, closesWith_report ..⟩
    cases answer.decision with
    | consent => exact .consent handler release
    | denied => exact .denied handler release
    | postponed => exact .postponed handler release

theorem Prepares.concludes {t left : Standing} (opened : t.Open)
    (prepares : Prepares d t site order calls said after left status) :
    StandsFor d calls said (.prepare order) status left.phase ∧
      ClosesWith said order.release status := by
  cases prepares with
  | again found isFor =>
    rw [opened.eq_of_staged found]
    exact ⟨.prepared order, closesWith_saying [] ..⟩
  | staged new stages => exact ⟨.prepared order, (closesWith_saying ..).prepend _⟩
  | ended new stages =>
    obtain ⟨how, closes⟩ := stages.closes
    refine ⟨?_, closes.prepend _⟩
    obtain rfl | ⟨rfl, asked⟩ := how
    · exact .notPrepared order
    · exact .wanted (asked.prepend _)

theorem standsFor_of_outcome (outcome : IsOutcome status)
    (wanted : status = .rollback → Answered calls .rollback) :
    StandsFor d calls said (.install order) status status.endPhase := by
  obtain rfl | rfl | rfl | rfl := outcome
  · exact .completed order
  · exact .failed order
  · exact .aborted order
  · exact .rolledBack order (wanted rfl)

theorem CarriesOut.concludes {t left : Standing}
    (carriesOut : CarriesOut d t site order calls said after left status) :
    StandsFor d calls said (.install order) status left.phase ∧
      ClosesWith said order.release status := by
  cases carriesOut with
  | staged found isFor installs =>
    obtain ⟨outcome, wanted, closes⟩ := installs.closes
    exact ⟨standsFor_of_outcome outcome wanted, closes⟩
  | inline new stages installs =>
    obtain ⟨outcome, wanted, closes⟩ := installs.closes
    refine ⟨standsFor_of_outcome outcome ?_, (closes.prepend _).prepend _⟩
    intro back
    obtain ⟨u, installed, ⟨found, made⟩, answered⟩ := wanted back
    exact ⟨u, installed, ⟨found, List.mem_append_right _ made⟩, answered⟩
  | ended new stages =>
    obtain ⟨how, closes⟩ := stages.closes
    refine ⟨?_, closes.prepend _⟩
    obtain rfl | ⟨rfl, asked⟩ := how
    · exact .failed order
    · exact .wantedToInstall (asked.prepend _)

theorem Deals.concludes {t left : Standing} {e : Event} {status : Option Status}
    {release : Release} (rest : t.AtRest) (about : e.release? = some release)
    (goes : Deals d t site e calls said after left status) :
    ∃ reported, status = some reported ∧ StandsFor d calls said e reported left.phase ∧
      ClosesWith said release reported := by
  cases goes with
  | query | confirmed | downloading | unhandled => cases about
  | offered offers =>
    cases about
    exact ⟨_, rfl, offers.concludes _⟩
  | prepare prepares =>
    cases about
    exact ⟨_, rfl, prepares.concludes rest.open_resumed⟩
  | install carriesOut =>
    cases about
    exact ⟨_, rfl, carriesOut.concludes⟩

/-- The answer to an offer or an order is the status of its release that is reported last, and the
phase is the one that it stands for. -/
theorem answer_concludes {s : Station σ} (reached : Reachable d s) (accepts : s.outbox.Accepts)
    {e : Event} {release : Release} (about : e.release? = some release) :
    Ensures (answer d e) s fun status after => ∃ calls said, after.calls = s.calls ++ calls ∧
      after.outbox.sent = s.outbox.sent ++ said ∧ ∃ reported, status = some reported ∧
      StandsFor d calls said e reported after.phase ∧ ClosesWith said release reported := by
  apply Ensures.imp (answer_leads e reached.atRest)
  intro status after led
  obtain ⟨calls, said, goes, made, sent⟩ := led
  refine ⟨calls, said, made, ?_, goes.concludes reached.atRest about⟩
  rw [sent]
  exact accepts.sendAll said

/-- A download has been agreed to, and a rollback to a version that is not here is ordered: the
agreement is dropped first, and then the file is asked for. -/
theorem answer_concludes_superseding :
    let d : Device Unit := ⟨.minimal, ⟨⟨"/versions"⟩, ⟨"/backups"⟩⟩, ⟨"ecu", none, true⟩⟩
    let s := (runOn (deal d (.offered "ecu" ⟨"app", "2"⟩)) (.fresh () (.empty []) .accepting)).2
    let e := Event.install ⟨⟨"app", "3"⟩, "ecu", [], some "1", []⟩
    (Reachable d s ∧ s.outbox.Accepts ∧ e.release? = some ⟨"app", "3"⟩) ∧
      Ensures (answer d e) s fun status after => ∃ calls said, after.calls = s.calls ++ calls ∧
        after.outbox.sent = s.outbox.sent ++ said ∧ ∃ reported, status = some reported ∧
        StandsFor d calls said e reported after.phase ∧ ClosesWith said ⟨"app", "3"⟩ reported :=
  have reached := .next (.fresh () (.empty []) .accepting) (.offered "ecu" ⟨"app", "2"⟩)
  ⟨⟨reached, fun _ => rfl, rfl⟩, answer_concludes reached (fun _ => rfl) rfl⟩

end Course
end OtaAgent
