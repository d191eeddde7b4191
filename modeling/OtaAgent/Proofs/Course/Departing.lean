import OtaAgent.Proofs.Course.Conclusions

set_option autoImplicit false

namespace OtaAgent

variable {σ : Type}

namespace Standing

/-- The release under way: the one that is staged, or the one whose download was agreed to or
postponed. -/
def underWay (t : Standing) : Option Release := (t.staged.map (·.release)).or t.awaited

/-- The update under way has come to a later step. -/
inductive MovesOn : Standing → Standing → Prop
  | agreed (release : Release) :
      MovesOn ⟨.confirmDownload, none, some release⟩ ⟨.awaitingTransfer, none, some release⟩
  | staged {t : Standing} {release : Release} {u : Update} (awaited : t.awaited = some release)
      (name : u.name = release.name) (announced : u.announced = release.version) :
      MovesOn t ⟨.preInstall, some u, none⟩

/-- The standings in which a release is under way. -/
inductive Under : Standing → Release → Prop
  | postponed (release : Release) : Under ⟨.confirmDownload, none, some release⟩ release
  | agreed (release : Release) : Under ⟨.awaitingTransfer, none, some release⟩ release
  | staged (u : Update) (ready : u.prepared = some .ready) :
      Under ⟨.preInstall, some u, none⟩ u.release

theorem AtRest.under {t : Standing} {release : Release} (rest : t.AtRest)
    (here : t.underWay = some release) : t.Under release := by
  cases rest with
  | idle | finished => cases here
  | postponed other =>
    cases here
    exact .postponed release
  | agreed other =>
    cases here
    exact .agreed release
  | staged u ready =>
    cases here
    exact .staged u ready

theorem Under.underWay {t : Standing} {release : Release} (under : t.Under release) :
    t.underWay = some release := by
  cases under <;> rfl

theorem Under.resumed {t : Standing} {release : Release} (under : t.Under release) :
    t.resumed = t := by
  cases under <;> rfl

theorem underWay_afterOffer (release : Release) (status : DownloadStatus) :
    (afterOffer release status).underWay = if status = .denied then none else some release := by
  cases status <;> rfl

theorem phase_afterOffer (release : Release) (status : DownloadStatus) :
    (afterOffer release status).phase = .idle ↔ status = .denied := by
  cases status <;> simp [afterOffer]

end Standing

namespace Course

open Standing

/-- The statuses that an update leaves with. -/
def partings : List Status :=
  [.download .denied, .install .aborted, .install .failed, .install .completed, .install .rollback]

/-- One of `said` reports a status that an update of `package` leaves with. -/
def Parted (said : List Json) (package : String) : Prop :=
  ∃ v ∈ said, ∃ release status, Report.stated? v = some (release, status) ∧
    release.name = package ∧ status ∈ partings

/-- The release that was under way is so no longer, and what is said does not tell why. -/
structure Forsaken (t left : Standing) (said : List Json) (release : Release) : Prop where
  gone : left.underWay ≠ some release
  stuck : ¬ t.MovesOn left
  silent : ¬ Parted said release.name

section Parted

variable {said : List Json} {package : String} {release : Release} {status : Status}

theorem Parted.append_left (parted : Parted said package) (more : List Json) :
    Parted (said ++ more) package := by
  obtain ⟨v, inside, rest⟩ := parted
  exact ⟨v, List.mem_append_left _ inside, rest⟩

theorem Parted.append_right (parted : Parted said package) (before : List Json) :
    Parted (before ++ said) package := by
  obtain ⟨v, inside, rest⟩ := parted
  exact ⟨v, List.mem_append_right _ inside, rest⟩

theorem parted_singleton {handler : String} {remarks : Remarks} :
    Parted [Report.status handler release status remarks] package ↔
      release.name = package ∧ status ∈ partings := by
  simp only [Parted, List.mem_singleton, exists_eq_left, Report.stated?_status, Option.some.injEq,
    Prod.mk.injEq]
  constructor
  · rintro ⟨_, _, ⟨rfl, rfl⟩, rest⟩
    exact rest
  · exact fun rest => ⟨release, status, ⟨rfl, rfl⟩, rest⟩

theorem ClosesWith.parted (closes : ClosesWith said release status) (parting : status ∈ partings) :
    Parted said release.name := by
  obtain ⟨earlier, last, rfl, states⟩ := closes
  exact ⟨last, by simp, release, status, states, rfl, parting⟩

theorem IsOutcome.mem_partings {status : InstallStatus} (outcome : IsOutcome status) :
    .install status ∈ partings := by
  obtain rfl | rfl | rfl | rfl := outcome <;> decide

end Parted

variable {d : Device σ} {t left : Standing} {site after : Site σ} {calls : List Call}
  {said : List Json} {order : Order} {release : Release}

theorem parted_dropping (under : t.Under release) : Parted (dropping d t) release.name := by
  unfold dropping
  rw [show (t.staged.map (·.release)).or t.awaited = some release from under.underWay]
  exact parted_singleton.mpr ⟨rfl, by decide⟩

/-- An order is for the release that is awaited, or the release under way is reported as aborted. -/
theorem awaited_or_parted (d : Device σ) (order : Order) (under : t.Under release) :
    t.awaited = some release ∧ order.release = release ∨
      Parted (takingUp d t order) release.name := by
  unfold takingUp
  split
  · rename_i awaited
    cases under <;> cases awaited
    all_goals exact .inl ⟨rfl, rfl⟩
  · exact .inr (parted_dropping under)

theorem Stages.announced {u : Update} (stages : Stages d order site calls said after (.ready u)) :
    u.announced = order.release.version := by
  cases stages with
  | @planned planned _ _ _ _ plan goes => cases goes with
    | ready brings checked answered =>
      have announced : planned.announced = order.release.version := by
        unfold plan? at plan
        split at plan
        · cases plan
          rfl
        · split at plan
          · obtain ⟨backup, -, rfl⟩ := Option.map_eq_some_iff.mp plan
            rfl
          · cases plan
      apply (Update.announced_relocated _ _).trans
      cases brings with
      | backup => exact announced
      | transfer => exact (announced_broughtBy ..).trans announced

theorem Stages.parted {status : InstallStatus}
    (stages : Stages d order site calls said after (.ended status)) :
    Parted said order.release.name := by
  obtain ⟨how, closes⟩ := stages.closes
  apply closes.parted
  obtain rfl | ⟨rfl, -⟩ := how <;> decide

theorem Installs.parted {previous : Option String} {u : Update} {status : InstallStatus}
    (installs : Installs d order previous u site calls said after status) :
    Parted said order.release.name :=
  have ⟨outcome, _, closes⟩ := installs.closes
  closes.parted outcome.mem_partings

/-- An order to prepare an update does not forsake the one under way. -/
theorem Prepares.not_forsaken {status : InstallStatus} (under : t.Under release)
    (prepares : Prepares d t site order calls said after left status) :
    ¬ Forsaken t left said release := by
  intro forsaken
  cases prepares with
  | again => exact forsaken.gone under.underWay
  | staged new stages =>
    obtain ⟨awaited, rfl⟩ | parted := awaited_or_parted d order under
    · have named := congrArg Release.name stages.release
      exact forsaken.stuck (.staged awaited named stages.announced)
    · exact forsaken.silent (parted.append_left _)
  | ended new stages =>
    obtain ⟨-, rfl⟩ | parted := awaited_or_parted d order under
    · exact forsaken.silent (stages.parted.append_right _)
    · exact forsaken.silent (parted.append_left _)

/-- Nor does one to install an update. -/
theorem CarriesOut.not_forsaken {status : InstallStatus} (under : t.Under release)
    (carriesOut : CarriesOut d t site order calls said after left status) :
    ¬ Forsaken t left said release := by
  intro forsaken
  cases carriesOut with
  | @staged u _ _ _ _ found isFor installs =>
    have same : order.release.name = release.name := by
      cases under <;> cases found
      exact (congrArg Release.name (eq_of_beq isFor)).symm
    exact forsaken.silent (same ▸ installs.parted)
  | inline new stages installs =>
    obtain ⟨-, rfl⟩ | parted := awaited_or_parted d order under
    · exact forsaken.silent ((installs.parted.append_right _).append_right _)
    · exact forsaken.silent (parted.append_left _)
  | ended new stages =>
    obtain ⟨-, rfl⟩ | parted := awaited_or_parted d order under
    · exact forsaken.silent (stages.parted.append_right _)
    · exact forsaken.silent (parted.append_left _)

theorem download_mem_partings (status : DownloadStatus) :
    Status.download status ∈ partings ↔ status = .denied := by
  cases status <;> decide

/-- An answer to an offer forsakes a download that was postponed if it is about another release, but
for a denial that is of the same package. -/
theorem forsaken_afterOffer (handler : String) (offered : Release) (status : DownloadStatus) :
    Forsaken ⟨.confirmDownload, none, some release⟩ (afterOffer offered status)
        [Report.status handler offered status {}] release ↔
      offered ≠ release ∧
        (offered.name = release.name → (afterOffer offered status).phase ≠ .idle) := by
  rw [ne_eq (Standing.phase _), phase_afterOffer]
  have silent_iff : Parted [Report.status handler offered status {}] release.name ↔
      offered.name = release.name ∧ status = .denied := by
    rw [parted_singleton, download_mem_partings]
  constructor
  · intro forsaken
    have silent := forsaken.silent
    rw [silent_iff] at silent
    refine ⟨?_, fun same denied => silent ⟨same, denied⟩⟩
    rintro rfl
    refine forsaken.gone ?_
    rw [underWay_afterOffer, if_neg fun denied => silent ⟨rfl, denied⟩]
  · rintro ⟨other, kept⟩
    refine ⟨?_, ?_, fun parted => ?_⟩
    · rw [underWay_afterOffer]
      split
      · nofun
      · exact fun same => other (Option.some.inj same)
    · cases status with
      | consent =>
        rintro ⟨⟩
        exact other rfl
      | denied | postponed => nofun
    · obtain ⟨same, denied⟩ := silent_iff.mp parted
      exact kept same denied

/-- An offer of another release forsakes a download that was postponed, unless the other one is of
the same package and is denied. -/
theorem Offers.forsaken {offered : Release} {status : DownloadStatus} (under : t.Under release)
    (offers : Offers d t site offered calls said after left status) :
    Forsaken t left said release ↔ t.phase = .confirmDownload ∧ offered ≠ release ∧
      (offered.name = release.name → left.phase ≠ .idle) := by
  cases offers with
  | again agreed =>
    subst agreed
    exact iff_of_false (fun forsaken => forsaken.gone under.underWay) (by simp)
  | @asked answer _ new answered =>
    cases under with
    | agreed | staged =>
      refine iff_of_false (fun forsaken => forsaken.silent ?_) (by simp)
      exact (parted_dropping (by constructor)).append_left _
    | postponed =>
      rw [show offering d ⟨.confirmDownload, none, some release⟩ = [] from rfl, List.nil_append,
        forsaken_afterOffer]
      exact (and_iff_right rfl).symm

theorem Deals.forsaken {e : Event} {status : Option Status} (under : t.Under release)
    (goes : Deals d t site e calls said after left status) :
    Forsaken t left said release ↔ t.phase = .confirmDownload ∧ ∃ handler offered,
      e = .offered handler offered ∧ offered ≠ release ∧
      (offered.name = release.name → left.phase ≠ .idle) := by
  have stays : ¬ Forsaken t t said release := fun forsaken => forsaken.gone under.underWay
  have resumed := under.resumed
  cases goes with
  | query | confirmed | downloading | unhandled => exact iff_of_false stays (by simp)
  | prepare prepares =>
    rw [resumed] at prepares
    exact iff_of_false (prepares.not_forsaken under) (by simp)
  | install carriesOut =>
    rw [resumed] at carriesOut
    exact iff_of_false (carriesOut.not_forsaken under) (by simp)
  | offered offers =>
    rw [resumed] at offers
    rw [offers.forsaken under]
    constructor
    · exact fun ⟨postponed, other⟩ => ⟨postponed, _, _, rfl, other⟩
    · rintro ⟨postponed, _, _, ⟨⟩, other⟩
      exact ⟨postponed, other⟩

/-- When an event has been dealt with, the update that was under way still is, or has come to a
later step, or a status that it ends with was reported of its package, unless its download was
postponed and another release was offered. -/
theorem route_forsakes {s : Station σ} (reached : Reachable d s) (accepts : s.outbox.Accepts)
    (here : s.standing.underWay = some release) (e : Event) :
    Ensures (route d e) s fun _ after => ∃ said, after.outbox.sent = s.outbox.sent ++ said ∧
      (Forsaken s.standing after.standing said release ↔ s.phase = .confirmDownload ∧
        ∃ offered, e = .offered d.profile.handler offered ∧ offered ≠ release ∧
        (offered.name = release.name → after.phase ≠ .idle)) := by
  have under := reached.atRest.under here
  refine ensures_route ?_ fun addressed => ?_
  · intro handler entry named others
    refine ⟨[], (List.append_nil _).symm, iff_of_false ?_ ?_⟩
    · exact fun forsaken => forsaken.gone under.underWay
    · rintro ⟨-, offered, rfl, -⟩
      exact others (Option.some.inj named).symm
  · apply Ensures.imp (deal_leads e reached.atRest)
    rintro _ after ⟨_, said, ⟨status, goes⟩, -, sent⟩
    refine ⟨said, by rw [sent, accepts.sendAll], (goes.forsaken under).trans ?_⟩
    constructor
    · rintro ⟨postponed, handler, offered, rfl, other⟩
      obtain rfl := addressed handler rfl
      exact ⟨postponed, offered, rfl, other⟩
    · rintro ⟨postponed, offered, rfl, other⟩
      exact ⟨postponed, _, offered, rfl, other⟩

/-- A download has been postponed, and it is for another package that an order comes. -/
theorem route_forsakes_superseding :
    let agent : Agent Unit :=
      { Agent.minimal with confirmDownload := fun _ => .answer .postponed }
    let d : Device Unit := ⟨agent, ⟨⟨"/versions"⟩, ⟨"/backups"⟩⟩, ⟨"ecu", none, true⟩⟩
    let s := (runOn (deal d (.offered "ecu" ⟨"app", "2"⟩)) (.fresh () (.empty []) .accepting)).2
    let e := Event.prepare ⟨⟨"other", "1"⟩, "ecu", [⟨"1", ⟨"/other"⟩, none, true⟩], none, []⟩
    (Reachable d s ∧ s.outbox.Accepts ∧ s.standing.underWay = some ⟨"app", "2"⟩) ∧
      Ensures (route d e) s fun _ after => ∃ said, after.outbox.sent = s.outbox.sent ++ said ∧
        (Forsaken s.standing after.standing said ⟨"app", "2"⟩ ↔ s.phase = .confirmDownload ∧
          ∃ offered, e = .offered "ecu" offered ∧ offered ≠ ⟨"app", "2"⟩ ∧
          (offered.name = "app" → after.phase ≠ .idle)) :=
  have reached := .next (.fresh () (.empty []) .accepting) (.offered "ecu" ⟨"app", "2"⟩)
  ⟨⟨reached, fun _ => rfl, rfl⟩, route_forsakes reached (fun _ => rfl) rfl _⟩

/-- A download has been postponed, and another one is offered, which the agent agrees to: all that
is said is that it does. -/
theorem forsaken_postponed :
    let agent : Agent Unit := { Agent.minimal with
      confirmDownload := fun release =>
        .answer (if release.name = "app" then .postponed else .consent) }
    let d : Device Unit := ⟨agent, ⟨⟨"/versions"⟩, ⟨"/backups"⟩⟩, ⟨"ecu", none, true⟩⟩
    let s := (runOn (deal d (.offered "ecu" ⟨"app", "2"⟩)) (.fresh () (.empty []) .accepting)).2
    let after := (runOn (route d (.offered "ecu" ⟨"other", "1"⟩)) s).2
    let said := [Report.status "ecu" ⟨"other", "1"⟩ DownloadStatus.consent {}]
    (Reachable d s ∧ s.outbox.Accepts ∧ s.standing.underWay = some ⟨"app", "2"⟩) ∧
      after.outbox.sent = s.outbox.sent ++ said ∧
      Forsaken s.standing after.standing said ⟨"app", "2"⟩ := by
  refine ⟨⟨.next (.fresh ..) _, fun _ => rfl, rfl⟩, rfl, ?_⟩
  exact (forsaken_afterOffer "ecu" ⟨"other", "1"⟩ .consent).mpr (by decide)

end Course
end OtaAgent
