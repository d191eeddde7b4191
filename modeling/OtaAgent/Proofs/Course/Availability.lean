import OtaAgent.Proofs.Course.Announcing

set_option autoImplicit false

namespace OtaAgent.Course

variable {σ : Type} {d : Device σ} {order : Order} {site after : Site σ} {calls : List Call}
  {said : List Json} {t left : Standing} {version : String} {e : Event}

/-- All that is done about `order` is to ask for the download of `version` and to leave the update:
no hook is called and no failure is reported. -/
structure AsksOnly (d : Device σ) (t : Standing) (site : Site σ) (order : Order) (version : String)
    (calls : List Call) (said : List Json) (after : Site σ) (left : Standing)
    (status : Option Status) : Prop where
  quiet : calls = []
  /-- Before, the update that `order` takes the place of may be reported as aborted. -/
  asks : said = takingUp d t.resumed order ++ [asking d order.release version]
  unchanged : after = site
  left : left = ⟨.idle, none, none⟩
  status : status = some (.install .rollback)

/-- The update that is staged for `order` is gone on with: it is reported as ready, or installed. -/
inductive GoesOn (d : Device σ) (t : Standing) (site : Site σ) (order : Order) :
    Event → List Call → List Json → Site σ → Standing → Option Status → Prop
  | prepare {u : Update} (found : t.staged = some u) (isFor : u.isFor order = true) :
      GoesOn d t site order (.prepare order) [] [saying d order .ready] site t
        (some (.install .ready))
  | install {u : Update} {calls : List Call} {said : List Json} {after : Site σ}
      {status : InstallStatus} (found : t.staged = some u) (isFor : u.isFor order = true)
      (installs : Installs d order (d.archive.current? site.files order.release.name) u site calls
        said after status) :
      GoesOn d t site order (.install order) calls said after ⟨status.endPhase, none, none⟩
        (some (.install status))

/-- Staging an order for which there is no file asks for the download and does nothing else. -/
theorem Stages.wants {result : Readiness} (rollback : order.rollbackVersion = some version)
    (unplanned : plan? d site.files order = none)
    (stages : Stages d order site calls said after result) :
    calls = [] ∧ said = [asking d order.release version] ∧ after = site ∧
      result = .ended .rollback := by
  cases stages with
  | missing _ ordinary => simp [rollback] at ordinary
  | wanted _ named =>
    obtain rfl := Option.some.inj (named.symm.trans rollback)
    exact ⟨rfl, rfl, rfl, rfl⟩
  | planned plan => simp [unplanned] at plan

/-- An order that is taken up and brings no file for its rollback asks for the download if and only
if no backup is recorded. -/
theorem Deals.asksOnly_iff {status : Option Status} (about : e.order? = some order)
    (rollback : order.rollbackVersion = some version) (unoffered : order.offer? version = none)
    (new : t.IsNew order) (goes : Deals d t site e calls said after left status) :
    AsksOnly d t site order version calls said after left status ↔
      d.archive.backup? site.files order.release.name version = none := by
  constructor
  · intro asks
    have idle := (goes.asksFor.idle order version about rollback new).mp
      (congrArg Standing.phase asks.left)
    exact idle.2
  · intro unkept
    have unplanned : plan? d site.files order = none :=
      (plan?_eq_none_iff rollback).mpr ⟨unoffered, unkept⟩
    cases goes with
    | confirmed | downloading | unhandled | query | offered => cases about
    | prepare prepares =>
      cases about
      cases prepares with
      | again found isFor => exact absurd new (not_isNew found isFor)
      | staged _ stages => cases (stages.wants rollback unplanned).2.2.2
      | ended _ stages =>
        obtain ⟨rfl, rfl, rfl, ended⟩ := stages.wants rollback unplanned
        cases ended
        exact ⟨rfl, rfl, rfl, rfl, rfl⟩
    | install carriesOut =>
      cases about
      cases carriesOut with
      | staged found isFor => exact absurd new (not_isNew found isFor)
      | inline _ stages => cases (stages.wants rollback unplanned).2.2.2
      | ended _ stages =>
        obtain ⟨rfl, rfl, rfl, ended⟩ := stages.wants rollback unplanned
        cases ended
        exact ⟨rfl, rfl, rfl, rfl, rfl⟩

theorem Deals.goesOn {status : Option Status} (about : e.order? = some order)
    (staged : ¬ t.IsNew order) (goes : Deals d t site e calls said after left status) :
    GoesOn d t.resumed site order e calls said after left status := by
  cases goes with
  | confirmed | downloading | unhandled | query | offered => cases about
  | prepare prepares =>
    cases about
    cases prepares with
    | again found isFor => exact .prepare found isFor
    | staged new | ended new => exact absurd new staged
  | install carriesOut =>
    cases about
    cases carriesOut with
    | staged found isFor installs => exact .install found isFor installs
    | inline new | ended new => exact absurd new staged

theorem canGoBack_eq_false_iff {t : Files.Tree} {package : String}
    (kept : ∀ backup, d.archive.backup? t package version = some backup →
      t.present backup.file = true) :
    canGoBack d t package version = false ↔ d.archive.backup? t package version = none := by
  unfold canGoBack
  cases found : d.archive.backup? t package version with
  | none => simp
  | some backup => simp [kept backup found]

/-- A failure of another version that could be followed by `version` only is said to be the last
one if and only if it is not there. -/
theorem terminalFailure_iff {t : Files.Tree} (only : order.rollbackVersions = [version])
    (other : order.target ≠ version) :
    (failureRemarks d t order).terminalFailure = true ↔
      canGoBack d t order.release.name version = false := by
  have next : nextFallback? d t order =
      suggestion? (canGoBack d t order.release.name) [version] order.target := by
    rw [← only]
    exact nextFallback?_eq fun _ _ => rfl
  rw [failureRemarks, only, if_neg (by simp)]
  change (nextFallback? d t order).isNone = true ↔ _
  rw [next, suggestion?, List.find?_cons, bne_iff_ne.mpr other.symm, Bool.true_and]
  cases canGoBack d t order.release.name version <;> simp

/-- How an order for a rollback that brings no file for `version` is dealt with. -/
structure Resolves (d : Device σ) (t : Standing) (site : Site σ) (e : Event) (order : Order)
    (version : String) (calls : List Call) (said : List Json) (after : Site σ) (left : Standing)
    (status : Option Status) : Prop where
  /-- Unless it is staged, its download is asked for if and only if the file of no backup is there;
  nothing is said here of a backup that is recorded and has lost its file. -/
  asks : t.IsNew order → (∀ backup, d.archive.backup? site.files order.release.name version =
      some backup → site.files.present backup.file = true) →
    (AsksOnly d t site order version calls said after left status ↔
      canGoBack d site.files order.release.name version = false)
  goesOn : ¬ t.IsNew order → GoesOn d t.resumed site order e calls said after left status
  /-- On the same terms a failure of another version is said to be the last one. -/
  terminal : ∀ other : Order, other.release.name = order.release.name → other.target ≠ version →
    other.rollbackVersions = [version] →
    ((failureRemarks d site.files other).terminalFailure = true ↔
      canGoBack d site.files order.release.name version = false)

theorem Deals.resolves {status : Option Status} (about : e.order? = some order)
    (rollback : order.rollbackVersion = some version) (unoffered : order.offer? version = none)
    (goes : Deals d t site e calls said after left status) :
    Resolves d t site e order version calls said after left status where
  asks new kept := by
    rw [canGoBack_eq_false_iff kept]
    exact goes.asksOnly_iff about rollback unoffered new
  goesOn staged := goes.goesOn about staged
  terminal other same apart only := by
    rw [← same]
    exact terminalFailure_iff only apart

/-- The download of a version is asked for, and nothing else is done, exactly where a failure would
be said to be the last one if that version was all there was to go back to. -/
theorem answer_resolves {s : Station σ} (reached : Reachable d s) (about : e.order? = some order)
    (rollback : order.rollbackVersion = some version) (unoffered : order.offer? version = none) :
    Ensures (answer d e) s fun status after => ∃ calls said, after.calls = s.calls ++ calls ∧
      after.outbox = s.outbox.sendAll said ∧
      Resolves d s.standing s.site e order version calls said after.site after.standing status := by
  apply Ensures.imp (answer_leads e reached.atRest)
  intro _ after led
  obtain ⟨calls, said, goes, made, sent⟩ := led
  exact ⟨calls, said, made, sent, goes.resolves about rollback unoffered⟩

/-- An order for a rollback comes while another update is staged. -/
theorem answer_resolves_superseding :
    let d : Device Unit := ⟨.minimal, ⟨⟨"/v"⟩, ⟨"/b"⟩⟩, ⟨"ecu", none, true⟩⟩
    let first : Order := ⟨⟨"app", "2"⟩, "ecu", [⟨"2", ⟨"/2"⟩, none, true⟩], none, []⟩
    let s := (runOn (deal d (.prepare first)) (.fresh () keepingTwo .accepting)).2
    let order : Order := ⟨⟨"app", "3"⟩, "ecu", [], some "1", ["1"]⟩
    (Reachable d s ∧ Event.order? (.install order) = some order ∧
      order.rollbackVersion = some "1" ∧ order.offer? "1" = none) ∧
      Ensures (answer d (.install order)) s fun status after => ∃ calls said,
        after.calls = s.calls ++ calls ∧ after.outbox = s.outbox.sendAll said ∧
        Resolves d s.standing s.site (.install order) order "1" calls said after.site
          after.standing status := by
  intro d first s order
  have reached : Reachable d s := .next (.fresh ..) _
  exact ⟨⟨reached, rfl, rfl, rfl⟩, answer_resolves reached rfl rfl rfl⟩

/-- The files of `keepingTwo` without the older backup, which the history still speaks of. -/
def keepingSecond : Files.Tree :=
  (((Files.Tree.empty []).put ["v"] .dir).put ["v", "app"]
    (.file (Text.Utf8.encode twoVersions.text))).put ["2"] (.file [])

theorem backup?_keepingSecond :
    Archive.backup? ⟨⟨"/v"⟩, ⟨"/b"⟩⟩ keepingSecond "app" "1" = some ⟨true, "", ⟨"/1"⟩⟩ := by
  have placed : keepingSecond.place (Archive.historyPath ⟨⟨"/v"⟩, ⟨"/b"⟩⟩ "app") =
      .ok (.entry ["v"] "app" false) := Files.eq_ok_of_toOption (by decide +kernel)
  have sorted : twoVersions.backups.Sorted := by
    unfold Table.Sorted
    decide +kernel
  have kept : Archive.get? ⟨⟨"/v"⟩, ⟨"/b"⟩⟩ keepingSecond "app" = some twoVersions :=
    Archive.get?_of_text (by decide +kernel) placed sorted (by decide +kernel) rfl
  rw [Archive.backup?, kept]
  decide +kernel

theorem canGoBack_keepingSecond {d : Device Unit} (archive : d.archive = ⟨⟨"/v"⟩, ⟨"/b"⟩⟩) :
    canGoBack d keepingSecond "app" "1" = false := by
  have found : d.archive.backup? keepingSecond "app" "1" = some ⟨true, "", ⟨"/1"⟩⟩ := by
    rw [archive, backup?_keepingSecond]
  have gone : keepingSecond.present ⟨"/1"⟩ = false := by decide +kernel
  exact (canGoBack_of_backup? found).trans gone

/-- Two orders for a rollback whose file is nowhere, and which do not ask for its download: in the
one case the history still speaks of the backup, in the other one the file was offered before and is
staged. -/
theorem not_asksOnly_lost_staged :
    let d : Device Unit := ⟨.minimal, ⟨⟨"/v"⟩, ⟨"/b"⟩⟩, ⟨"ecu", none, true⟩⟩
    let order : Order := ⟨⟨"app", "3"⟩, "ecu", [], some "1", []⟩
    let lost : Station Unit := .fresh () keepingSecond .accepting
    let staged : Station Unit := (runOn
      (deal d (.prepare { order with offers := [⟨"1", ⟨"/one"⟩, none, true⟩] }))
      (.fresh () ((Files.Tree.empty []).put ["one"] (.file [])) .accepting)).2
    ∀ s ∈ [lost, staged], Reachable d s ∧ canGoBack d s.site.files "app" "1" = false ∧
      Ensures (answer d (.prepare order)) s fun status after => ∀ calls said,
        ¬ AsksOnly d s.standing s.site order "1" calls said after.site after.standing status := by
  intro d order lost staged
  have gone : canGoBack d keepingSecond "app" "1" = false := canGoBack_keepingSecond rfl
  refine List.forall_mem_cons.mpr ⟨⟨.fresh .., gone, ?_⟩, List.forall_mem_singleton.mpr
    ⟨.next (.fresh ..) _, by decide +kernel, ?_⟩⟩
  · have reached : Reachable d lost := .fresh ..
    apply Ensures.imp (answer_leads (.prepare order) reached.atRest)
    intro status after led calls said asks
    obtain ⟨_, _, goes, -⟩ := led
    have unkept := (goes.asksFor.idle order "1" rfl rfl rfl).mp (congrArg Standing.phase asks.left)
    cases backup?_keepingSecond.symm.trans unkept.2
  · have ready : (runOn (answer d (.prepare order)) staged).1.toOption =
        some (some (.install .ready)) := by decide +kernel
    cases ran : runOn (answer d (.prepare order)) staged with
    | mk result after =>
      rw [ran] at ready
      cases result with
      | error e => cases ready
      | ok status =>
        refine (ensures_of_runOn ran).mpr fun calls said asks => ?_
        cases (Option.some.inj ready).symm.trans asks.status

end OtaAgent.Course
