import OtaAgent.Proofs.Course.Reachable

set_option autoImplicit false

namespace OtaAgent.Course

variable {σ : Type} {d : Device σ} {s : Station σ}

/-- The calls among `calls` that an update passes through. -/
def steps (calls : List Call) : List Call := calls.filter (·.hook.isStep)

/-- The last of `calls` staged the release of `u`. -/
def LastStages (calls : List Call) (u : Update) : Prop := ∃ v newPath found,
  calls.getLast? = some ⟨.prepareInstall v (.ok ⟨.ready, newPath⟩), found⟩ ∧ v.release = u.release

/-- `call` is in its turn if it is made after those of `earlier` events and those `before` it in its
own event, and is followed by `later` ones. -/
def InTurn (d : Device σ) (earlier before : List Call) (call : Call) (later : List Call) : Prop :=
  match call.hook with
  | .prepareInstall u _ =>
    (u.isBackup = true ∨ ∃ v outcome found,
      before.getLast? = some ⟨.transferFile v (.ok outcome), found⟩ ∧ outcome.status = 0 ∧
      v.release = u.release ∧ v.announced = u.announced) ∧
    (d.profile.verifyChecksum = true → ∀ text, u.received = some text → ∃ content,
      call.files.read u.file = .ok content ∧ Digest.parse? text = some (.ofContent content))
  | .preInstall u _ => LastStages (earlier ++ before) u
  | .install u installed =>
    (∃ found, before.getLast? = some ⟨.preInstall u (.ok .inProgress), found⟩) ∧
    (installed.answer = .ok .completed →
      ∃ receipt recorded found told left rest, later = ⟨.setVersion receipt recorded, found⟩ ::
        ⟨.postInstall installed.update.name told, left⟩ :: rest ∧
        receipt.package = installed.update.name ∧ receipt.version = installed.update.version)
  | .setVersion receipt _ => ∃ u installed found,
    before.getLast? = some ⟨.install u installed, found⟩ ∧ installed.answer = .ok .completed ∧
    receipt.package = installed.update.name ∧ receipt.version = installed.update.version
  | .postInstall package _ => ∃ receipt recorded found,
    before.getLast? = some ⟨.setVersion receipt recorded, found⟩ ∧ receipt.package = package
  | _ => True

def AllInTurn (d : Device σ) (earlier : List Call) : List Call → List Call → Prop
  | _, [] => True
  | before, call :: later =>
    InTurn d earlier before call later ∧ AllInTurn d earlier (before ++ [call]) later

theorem InTurn.append {earlier before later : List Call} {call : Call}
    (inTurn : InTurn d earlier before call later) (rest : List Call) :
    InTurn d earlier before call (later ++ rest) := by
  obtain ⟨hook, files⟩ := call
  cases hook with
  | install u installed =>
    refine ⟨inTurn.1, fun completed => ?_⟩
    obtain ⟨receipt, recorded, found, told, left, more, rfl, same⟩ := inTurn.2 completed
    exact ⟨receipt, recorded, found, told, left, more ++ rest, rfl, same⟩
  | _ => exact inTurn

theorem AllInTurn.append {earlier before calls more : List Call}
    (first : AllInTurn d earlier before calls)
    (second : AllInTurn d earlier (before ++ calls) more) :
    AllInTurn d earlier before (calls ++ more) := by
  induction calls generalizing before with
  | nil => simpa using second
  | cons call later ih =>
    exact ⟨first.1.append more, ih first.2 (by simpa using second)⟩

theorem AllInTurn.inTurn {earlier before mid later : List Call} {call : Call}
    (all : AllInTurn d earlier before (mid ++ call :: later)) :
    InTurn d earlier (before ++ mid) call later := by
  induction mid generalizing before with
  | nil => simpa using all.1
  | cons head mid ih => simpa using ih all.2

theorem digest_of_checkDigest {u : Update} {t : Files.Tree}
    (verifies : d.profile.verifyChecksum = true) (checked : ((checkDigest d u).runOn t).1 = .ok ())
    {text : String} (received : u.received = some text) :
    ∃ content, t.read u.file = .ok content ∧ Digest.parse? text = some (.ofContent content) := by
  unfold checkDigest at checked
  simp only [verifies, Bool.not_true, Bool.false_eq_true, if_false, received] at checked
  cases wanted : Digest.parse? text with
  | none => simp [wanted] at checked
  | some digest =>
    simp only [wanted] at checked
    rw [Files.Job.runOn_bind] at checked
    split at checked
    · rename_i found next ran
      obtain ⟨content, read, rfl⟩ := Files.Job.read_of_fileDigest (congrArg Prod.fst ran)
      refine ⟨content, read, ?_⟩
      by_cases same : Digest.ofContent content = digest
      · rw [same]
      · simp [same] at checked
    · simp at checked

section Stages

variable {order : Order} {u brought : Update} {site middle after : Site σ} {calls : List Call}
  {said : List Json} {result : Readiness}

/-- What is brought is staged in its turn. -/
theorem Brings.inTurn {answer : Answer Prepared}
    (brings : Brings d site u calls said middle brought)
    (checked : ((checkDigest d brought).runOn middle.files).1 = .ok ()) (earlier : List Call) :
    AllInTurn d earlier [] (calls ++ [⟨.prepareInstall brought answer, middle.files⟩]) := by
  have matching (verifies : d.profile.verifyChecksum = true) (text : String)
      (received : brought.received = some text) := digest_of_checkDigest verifies checked received
  cases brings with
  | backup isBackup => exact ⟨⟨.inl isBackup, matching⟩, trivial⟩
  | transfer notBackup answered success =>
    refine ⟨trivial, ⟨.inr ⟨u, _, _, rfl, success, ?_, ?_⟩, matching⟩, trivial⟩
    · rw [release_broughtBy]
    · rw [announced_broughtBy]

theorem Brings.isStep (brings : Brings d site u calls said middle brought) :
    ∀ call ∈ calls, call.hook.isStep = true := by
  cases brings with
  | backup isBackup => simp
  | transfer notBackup answered success => simp [HookCall.isStep]

theorem MakesReady.isStep (goes : MakesReady d order site u calls said after result) :
    ∀ call ∈ calls, call.hook.isStep = true := by
  cases goes with
  | notBrought => simp [HookCall.isStep]
  | refused brings mismatch => exact brings.isStep
  | notStaged brings checked answered failed =>
    simpa [HookCall.isStep, or_imp, forall_and] using brings.isStep
  | ready brings checked answered =>
    simpa [HookCall.isStep, or_imp, forall_and] using brings.isStep

theorem MakesReady.inTurn (goes : MakesReady d order site u calls said after result)
    (earlier : List Call) : AllInTurn d earlier [] calls := by
  cases goes with
  | notBrought => exact ⟨trivial, trivial⟩
  | refused brings mismatch =>
    cases brings with
    | backup => trivial
    | transfer => exact ⟨trivial, trivial⟩
  | notStaged brings checked answered failed => exact brings.inTurn checked earlier
  | ready brings checked answered => exact brings.inTurn checked earlier

theorem Stages.isStep (stages : Stages d order site calls said after result) :
    ∀ call ∈ calls, call.hook.isStep = true := by
  cases stages with
  | missing | wanted => simp
  | planned plan goes => exact goes.isStep

theorem Stages.inTurn (stages : Stages d order site calls said after result)
    (earlier : List Call) : AllInTurn d earlier [] calls := by
  cases stages with
  | missing | wanted => trivial
  | planned plan goes => exact goes.inTurn earlier

/-- The last call of staging that came out well. -/
theorem Stages.lastStages (stages : Stages d order site calls said after (.ready u))
    (before : List Call) : LastStages (before ++ calls) u := by
  cases stages with
  | planned plan goes => cases goes with
    | ready brings checked answered =>
      rw [← List.append_assoc]
      exact ⟨_, _, _, List.getLast?_concat, (Update.release_relocated ..).symm⟩

end Stages

section Installs

variable {order : Order} {previous : Option String} {u : Update} {site after : Site σ}
  {calls : List Call} {said : List Json} {status : InstallStatus}

theorem Ends.isStep {reached : InstallStatus}
    (ends : Ends d order previous u site reached calls said after status) :
    ∀ call ∈ calls, call.hook.isStep = true := by
  cases ends <;> simp [HookCall.isStep]

theorem Installs.isStep (installs : Installs d order previous u site calls said after status) :
    ∀ call ∈ calls, call.hook.isStep = true := by
  cases installs with
  | calledOff | notCleared => simp [HookCall.isStep]
  | installed cleared did ends => simpa [HookCall.isStep] using ends.isStep

/-- An install that was completed is recorded and told at once, and nothing else is. -/
theorem Ends.inTurn {installed : Installed} {reached : InstallStatus}
    {earlier before : List Call} {found : Files.Tree}
    (ends : Ends d order previous installed.left site reached calls said after status)
    (came : installed.status = reached)
    (last : before.getLast? = some ⟨.install u installed, found⟩) :
    AllInTurn d earlier before calls ∧
      (installed.answer = .ok .completed → ∃ receipt recorded found told left, calls =
        [⟨.setVersion receipt recorded, found⟩,
          ⟨.postInstall installed.update.name told, left⟩] ∧
        receipt.package = installed.update.name ∧ receipt.version = installed.update.version) := by
  have not_completed (other : reached ≠ .completed) : installed.answer ≠ .ok .completed := by
    intro completed
    apply other
    rw [← came, Installed.status, completed]
    rfl
  cases ends with
  | completed recording telling =>
    have completed := Answer.eq_ok_of_status came nofun
    refine ⟨⟨?_, ⟨_, _, _, List.getLast?_concat, rfl⟩, trivial⟩, fun _ => ?_⟩
    · exact ⟨u, installed, found, last, completed, rfl, rfl⟩
    · exact ⟨_, _, _, _, _, rfl, rfl, rfl⟩
  | noTarget | notRestored | restored | aborted =>
    exact ⟨trivial, fun completed => absurd completed (not_completed nofun)⟩
  | failed notCompleted notRollback notAborted =>
    exact ⟨trivial, fun completed => absurd completed (not_completed notCompleted)⟩

theorem Installs.inTurn {earlier before : List Call}
    (installs : Installs d order previous u site calls said after status)
    (staged : LastStages (earlier ++ before) u) : AllInTurn d earlier before calls := by
  cases installs with
  | calledOff | notCleared => exact ⟨staged, trivial⟩
  | installed cleared did ends =>
    obtain ⟨rest, completing⟩ := ends.inTurn rfl List.getLast?_concat
    refine ⟨staged, ⟨⟨_, List.getLast?_concat⟩, fun completed => ?_⟩, rest⟩
    obtain ⟨receipt, recorded, found, told, left, rfl, same⟩ := completing completed
    exact ⟨receipt, recorded, found, told, left, [], rfl, same⟩

end Installs

theorem steps_eq_self {calls : List Call} (all : ∀ call ∈ calls, call.hook.isStep = true) :
    steps calls = calls := List.filter_eq_self.mpr all

/-- The last of `calls` staged what is staged in `t`. -/
def StagedLast (t : Standing) (calls : List Call) : Prop :=
  ∀ u, t.staged = some u → LastStages calls u

theorem stagedLast_of_none {t : Standing} (calls : List Call) (unstaged : t.staged = none) :
    StagedLast t calls := by
  intro u staged
  rw [unstaged] at staged
  cases staged

theorem StagedLast.resumed {t : Standing} {calls : List Call} (last : StagedLast t calls) :
    StagedLast t.resumed calls := by
  unfold Standing.resumed
  split
  · exact stagedLast_of_none calls rfl
  · exact last

theorem stagedLast_afterOffer (release : Release) (status : DownloadStatus) (calls : List Call) :
    StagedLast (.afterOffer release status) calls :=
  stagedLast_of_none calls (by cases status <;> rfl)

/-- Dealing with an event makes its calls in their turn, and leaves staged only what the last of
them staged. -/
theorem Deals.inTurn {t left : Standing} {site after : Site σ} {e : Event} {calls : List Call}
    {said : List Json} {status : Option Status} {earlier : List Call}
    (goes : Deals d t site e calls said after left status) (last : StagedLast t earlier) :
    AllInTurn d earlier [] (steps calls) ∧ StagedLast left (earlier ++ steps calls) := by
  have stays : AllInTurn d earlier [] [] ∧ StagedLast t.resumed (earlier ++ []) :=
    ⟨trivial, by simpa using last.resumed⟩
  cases goes with
  | query | confirmed | downloading | unhandled =>
    exact ⟨trivial, by simpa [steps, HookCall.isStep] using last⟩
  | offered offers => cases offers with
    | again agreed => exact stays
    | asked new answered => exact ⟨⟨trivial, trivial⟩, stagedLast_afterOffer _ _ _⟩
  | prepare prepares => cases prepares with
    | again found isFor => exact stays
    | staged new stages =>
      rw [steps_eq_self stages.isStep]
      refine ⟨stages.inTurn earlier, ?_⟩
      intro _ same
      cases same
      exact stages.lastStages earlier
    | ended new stages =>
      rw [steps_eq_self stages.isStep]
      exact ⟨stages.inTurn earlier, stagedLast_of_none _ rfl⟩
  | install carriesOut => cases carriesOut with
    | staged found isFor installs =>
      rw [steps_eq_self installs.isStep]
      refine ⟨installs.inTurn ?_, stagedLast_of_none _ rfl⟩
      rw [List.append_nil]
      exact last.resumed _ found
    | inline new stages installs =>
      rw [steps, List.filter_append, ← steps, ← steps, steps_eq_self stages.isStep,
        steps_eq_self installs.isStep]
      exact ⟨(stages.inTurn earlier).append (installs.inTurn (stages.lastStages earlier)),
        stagedLast_of_none _ rfl⟩
    | ended new stages =>
      rw [steps_eq_self stages.isStep]
      exact ⟨stages.inTurn earlier, stagedLast_of_none _ rfl⟩

/-- The stations that the course of `d` can come to, with the steps that were made while each event
was dealt with. -/
inductive Runs (d : Device σ) : List (List Call) → Station σ → Prop
  | fresh (own : σ) (files : Files.Tree) (outbox : Outbox) : Runs d [] (.fresh own files outbox)
  | dealt {chapters : List (List Call)} {s after : Station σ} {e : Event}
      {result : Except Error Unit} {calls : List Call} (runs : Runs d chapters s)
      (ran : runOn (deal d e) s = (result, after)) (made : after.calls = s.calls ++ calls) :
      Runs d (chapters ++ [steps calls]) after
  | paused {chapters : List (List Call)} {s after : Station σ} (runs : Runs d chapters s)
      (pause : s.Pauses after) : Runs d chapters after

variable {chapters : List (List Call)}

theorem Runs.next {calls : List Call} (runs : Runs d chapters s) (e : Event)
    (made : (runOn (deal d e) s).2.calls = s.calls ++ calls) :
    Runs d (chapters ++ [steps calls]) (runOn (deal d e) s).2 :=
  runs.dealt (e := e) rfl made

theorem Runs.reachable (runs : Runs d chapters s) : Reachable d s := by
  induction runs with
  | fresh own files outbox => exact .fresh own files outbox
  | dealt runs ran made ih => exact ih.dealt ran
  | paused runs pause ih => exact ih.paused pause

theorem Reachable.runs (reached : Reachable d s) : ∃ chapters, Runs d chapters s := by
  induction reached with
  | fresh own files outbox => exact ⟨[], .fresh own files outbox⟩
  | dealt reached ran ih =>
    obtain ⟨chapters, runs⟩ := ih
    obtain ⟨_, after, same, calls, _, _, made, _⟩ := (deal_leads _ reached.atRest).exists_ok
    rw [ran, Prod.mk.injEq] at same
    rw [← same.2] at made
    exact ⟨_, runs.dealt ran made⟩
  | paused reached pause ih =>
    obtain ⟨chapters, runs⟩ := ih
    exact ⟨chapters, runs.paused pause⟩

theorem Runs.steps_calls (runs : Runs d chapters s) : steps s.calls = chapters.flatten := by
  induction runs with
  | fresh own files outbox => rfl
  | dealt runs ran made ih =>
    rw [made, steps, List.filter_append, ← steps, ← steps, ih]
    simp
  | paused runs pause ih =>
    obtain ⟨others, made, noSteps⟩ := pause.calls
    have passedOver : others.filter (·.hook.isStep) = [] :=
      List.filter_eq_nil_iff.mpr (by simpa using noSteps)
    rw [made, steps, List.filter_append, ← steps, ih, passedOver, List.append_nil]

theorem inTurn_of_deal {s after : Station σ} {e : Event} {result : Except Error Unit}
    {earlier calls : List Call} (rest : s.standing.AtRest) (last : StagedLast s.standing earlier)
    (ran : runOn (deal d e) s = (result, after)) (made : after.calls = s.calls ++ calls) :
    AllInTurn d earlier [] (steps calls) ∧ StagedLast after.standing (earlier ++ steps calls) := by
  obtain ⟨_, _, same, others, said, ⟨status, goes⟩, alsoMade, _⟩ := (deal_leads e rest).exists_ok
  rw [ran, Prod.mk.injEq] at same
  rw [← same.2] at goes alsoMade
  obtain rfl : others = calls := List.append_cancel_left (alsoMade.symm.trans made)
  exact goes.inTurn last

theorem Runs.stagedLast (runs : Runs d chapters s) : StagedLast s.standing chapters.flatten := by
  induction runs with
  | fresh own files outbox => exact stagedLast_of_none _ rfl
  | dealt runs ran made ih =>
    simpa using (inTurn_of_deal runs.reachable.atRest ih ran made).2
  | paused runs pause ih =>
    rw [pause.standing]
    exact ih

theorem Runs.allInTurn (runs : Runs d chapters s) : ∀ {earlier rest : List (List Call)}
    {chapter : List Call}, chapters = earlier ++ chapter :: rest →
      AllInTurn d earlier.flatten [] chapter := by
  induction runs with
  | fresh own files outbox =>
    intro earlier rest chapter split
    simp at split
  | dealt runs ran made ih =>
    intro earlier rest chapter split
    rcases List.eq_nil_or_concat rest with rfl | ⟨rest, final, rfl⟩
    · obtain ⟨rfl, same⟩ := List.append_inj' split rfl
      obtain rfl := List.head_eq_of_cons_eq same
      exact (inTurn_of_deal runs.reachable.atRest runs.stagedLast ran made).1
    · rw [List.concat_eq_append, ← List.cons_append, ← List.append_assoc] at split
      exact ih (List.append_inj' split rfl).1
  | paused runs pause ih => exact ih

/-- Every call of a run is in its turn. -/
theorem steps_inTurn (runs : Runs d chapters s) : steps s.calls = chapters.flatten ∧
    ∀ earlier before call later rest, chapters = earlier ++ (before ++ call :: later) :: rest →
      InTurn d earlier.flatten before call (later ++ rest.flatten) := by
  refine ⟨runs.steps_calls, ?_⟩
  intro earlier before call later rest split
  exact (runs.allInTurn split).inTurn.append rest.flatten

/-- An update is staged by one event and installed by the next. -/
theorem steps_inTurn_twoEvents :
    let d : Device Unit := ⟨.minimal, ⟨⟨"/versions"⟩, ⟨"/backups"⟩⟩, ⟨"ecu", none, true⟩⟩
    let order : Order := ⟨⟨"app", "2"⟩, "ecu", [⟨"2", ⟨"/app"⟩, none, true⟩], none, []⟩
    let s := (runOn (deal d (.prepare order)) (.fresh () (.empty []) .accepting)).2
    let after := (runOn (deal d (.install order)) s).2
    after.calls.length = 6 ∧
      steps after.calls = [steps s.calls, steps (after.calls.drop 2)].flatten ∧
      ∀ earlier before call later rest, [steps s.calls, steps (after.calls.drop 2)] =
        earlier ++ (before ++ call :: later) :: rest →
        InTurn d earlier.flatten before call (later ++ rest.flatten) :=
  ⟨rfl, steps_inTurn (.next (.next (.fresh () (.empty []) .accepting) _ rfl) _ rfl)⟩

end OtaAgent.Course
