import OtaAgent.Proofs.Course.Twin

set_option autoImplicit false

namespace OtaAgent

variable {σ α : Type}

/-- The agent, answering what counts of its answers: none of the hooks that an update passes through
fails without an answer. -/
def Agent.counting (agent : Agent σ) : Agent σ where
  init := agent.init
  confirmDownload release := Hook.counting Answer.decision (agent.confirmDownload release)
  transferFile u := Hook.counting Answer.transferred (agent.transferFile u)
  prepareInstall u := Hook.counting Answer.prepared (agent.prepareInstall u)
  preInstall u := Hook.counting Answer.status (agent.preInstall u)
  install u := Deed.counting (Installed.counted u) (agent.install u)
  postInstall package := Hook.counting (fun _ => ()) (agent.postInstall package)
  getVersion := agent.getVersion
  setVersion archive r := Hook.counting (fun _ => ()) (agent.setVersion archive r)
  presence := agent.presence
  onMessage := agent.onMessage

/-- The agents do the same, and differ in no more than how their hooks fail: with an error, with a
panic, or by answering their failure. -/
def Agent.FailsLike (agent other : Agent σ) : Prop := agent.counting = other.counting

def Device.counting (d : Device σ) : Device σ := { d with agent := d.agent.counting }

theorem Answer.transferred_ok (answer : Answer Transferred) :
    Answer.transferred (.ok answer.transferred) = answer.transferred := by
  cases answer with
  | error e => rfl
  | ok outcome =>
    simp only [Answer.transferred]
    split <;> rfl

theorem Answer.prepared_ok (answer : Answer Prepared) :
    Answer.prepared (.ok answer.prepared) = answer.prepared := by
  cases answer with
  | error e => rfl
  | ok outcome =>
    simp only [Answer.prepared]
    split <;> rfl

theorem Installed.counted_counted (u : Update) (installed : Installed) :
    (installed.counted u).counted u = installed.counted u := by
  unfold counted
  split
  · rfl
  · simp [*]

namespace Course

variable (d : Device σ) (order : Order) (u : Update)

theorem twin_report (release : Release) (status : Status) (remarks : Remarks := {}) :
    Twin (report d release status remarks) (report d.counting release status remarks) :=
  .bind (twin_note _ _ _ _) fun _ => twin_send _

theorem twin_endFailed (reason other : String) :
    Twin (endFailed d order reason) (endFailed d.counting order other) := by
  apply Twin.bind (twin_enter _)
  intro _
  refine .bind (twin_modify fun _ _ like => { like with staged := rfl }) fun _ => ?_
  refine .bind (twin_note _ _ _ _) fun _ => .bind twin_files fun t => ?_
  exact .bind (twin_report d _ _ _) fun _ => twin_pure _

theorem twin_endAborted : Twin (endAborted d order) (endAborted d.counting order) :=
  .bind (twin_enter _) fun _ => .bind (twin_modify fun _ _ like => { like with staged := rfl })
    fun _ => .bind (twin_note _ _ _ _) fun _ => .bind (twin_report d _ _ _) fun _ => twin_pure _

section Staging

theorem twin_endedFailed (reason other : String) :
    Twin (do return Readiness.ended (← endFailed d order reason))
      (do return Readiness.ended (← endFailed d.counting order other)) :=
  .bind (twin_endFailed d order reason other) fun _ => twin_pure _

theorem twin_stageFile : Twin (stageFile d order u) (stageFile d.counting order u) := by
  refine .bind (twin_enter _) fun _ => .ask_bind (fun answer => ?_) fun answer counts same => ?_
  · rw [HookCall.counted, HookCall.counted, Answer.prepared_ok]
  · cases answer with
    | error e =>
      obtain rfl := same
      exact twin_endedFailed d order _ _
    | ok outcome =>
      by_cases failed : outcome.status = .failed
      · obtain rfl : ⟨.failed, none⟩ = counts := (if_pos failed).symm.trans same
        simp only [mapError_ok, failed]
        exact twin_endedFailed d order _ _
      · obtain rfl : outcome = counts := (if_neg failed).symm.trans same
        simp only [mapError_ok]
        split
        · exact .bind (twin_enter _) fun _ => twin_pure _
        · exact twin_endedFailed d order _ _

/-- An update whose transfer was answered with one is the same wherever its file is. -/
theorem twin_bringFile : Twin (bringFile d u) (bringFile d.counting u) := by
  refine .bind (twin_progress _ _ _ _) fun _ =>
    .ask_bind (fun answer => ?_) fun answer counts same => ?_
  · rw [HookCall.counted, HookCall.counted, Answer.transferred_ok]
  · cases answer with
    | error e =>
      obtain rfl := same
      exact .note_bind (twin_pure _)
    | ok outcome =>
      by_cases failed : outcome.status = 1
      · obtain rfl : ⟨1, none⟩ = counts := (if_pos failed).symm.trans same
        simp only [mapError_ok, failed]
        exact twin_pure _
      · obtain rfl : outcome = counts := (if_neg failed).symm.trans same
        exact twin_pure _

end Staging

section Installing

variable (previous : Option String)

theorem twin_passOver (level : Level) (code : String) (release : Release)
    (result : Except Error Unit) :
    Twin (σ := σ) (passOver level code release result) (passOver level code release (.ok ())) := by
  cases result with
  | ok _ => exact twin_pure ()
  | error e => exact .note_bind (f := fun _ => pure ()) (twin_pure ())

theorem setVersion_counting (r : Receipt) : d.counting.agent.setVersion d.counting.archive r =
    Hook.counting (fun _ => ()) (d.agent.setVersion d.archive r) := rfl

theorem postInstall_counting (package : String) : d.counting.agent.postInstall package =
    Hook.counting (fun _ => ()) (d.agent.postInstall package) := rfl

theorem twin_endCompleted : Twin (endCompleted d order u) (endCompleted d.counting order u) := by
  apply Twin.bind twin_files
  intro t
  dsimp only
  rw [setVersion_counting, postInstall_counting]
  refine .ask_bind (fun _ => rfl) fun recorded _ _ => ?_
  refine .bind (twin_passOver _ _ _ _) fun _ => .bind (twin_enter _) fun _ =>
    .bind (twin_report d _ _ _) fun _ => .ask_bind (fun _ => rfl) fun told _ _ => ?_
  exact .bind (twin_passOver _ _ _ _) fun _ => .bind (twin_enter _) fun _ =>
    .bind (twin_note _ _ _ _) fun _ => twin_pure _

theorem fallback?_counting (t : Files.Tree) :
    fallback? d.counting t order u previous = fallback? d t order u previous := rfl

theorem twin_fallBack :
    Twin (fallBack d order u previous) (fallBack d.counting order u previous) := by
  apply Twin.bind twin_files
  intro t
  rw [fallback?_counting]
  split
  · exact twin_endFailed d order _ _
  · apply Twin.bind (twin_perform _)
    intro result
    cases result with
    | error e => exact twin_endFailed d order _ _
    | ok _ =>
      exact .bind (twin_enter _) fun _ => .bind (twin_note _ _ _ _) fun _ =>
        .bind (twin_report d _ _ _) fun _ => twin_pure _

theorem Twin.verdict_bind {name code : String} {release : Release} {answer : Answer InstallStatus}
    {f : InstallStatus → Course σ α} {twin : Course σ α} (rest : Twin (f answer.status) twin) :
    Twin (verdict code release (answer.mapError (·.toError name)) >>= f) twin := by
  cases answer with
  | ok status => exact rest
  | error e =>
    refine (?_ : Twin ((do note .error code _; pure InstallStatus.failed) >>= f) twin)
    rw [bind_assoc]
    exact .note_bind rest

/-- What is done about a status is the same, but for the reason that is noted if it is a failure. -/
theorem twin_ends (status : InstallStatus) : Twin (match status with
    | .completed => endCompleted d order u
    | .rollback => fallBack d order u previous
    | .aborted => endAborted d order
    | status => endFailed d order s!"install answered {status.text}") (match status with
    | .completed => endCompleted d.counting order u
    | .rollback => fallBack d.counting order u previous
    | .aborted => endAborted d.counting order
    | status => endFailed d.counting order s!"install answered {status.text}") := by
  split
  · exact twin_endCompleted d order u
  · exact twin_fallBack d order u previous
  · exact twin_endAborted d order
  · exact twin_endFailed d order _ _

theorem twin_install :
    Twin (install d order u previous) (install d.counting order u previous) := by
  refine .bind (twin_enter _) fun _ => .bind (twin_report d _ _ _) fun _ =>
    .bind (twin_progress _ _ _ _) fun _ => .call_bind (fun installed => ?_) fun installed => ?_
  · rw [HookCall.counted, HookCall.counted, Installed.counted_counted]
  · by_cases failed : installed.status = .failed
    · -- A failed update ends without being looked at, whatever the agent made of it.
      rw [Installed.counted, if_pos failed]
      refine .verdict_bind (.symm (.verdict_bind ?_))
      rw [show installed.answer.status = .failed from failed]
      exact (twin_endFailed d order _ _).symm
    · rw [Installed.counted, if_neg failed]
      exact .verdict_bind (.symm (.verdict_bind (twin_ends d order _ previous _).symm))

theorem twin_checkAndInstall :
    Twin (checkAndInstall d order u previous) (checkAndInstall d.counting order u previous) := by
  refine .ask_bind (fun answer => rfl) fun answer counts same => ?_
  obtain rfl := same
  apply Twin.verdict_bind
  simp only [verdict, pure_bind]
  split
  · exact twin_install d order u previous
  · exact twin_endAborted d order
  · exact twin_endFailed d order _ _

end Installing

section Events

theorem twin_askConsent (release : Release) :
    Twin (askConsent d release) (askConsent d.counting release) := by
  refine .ask_bind (fun answer => rfl) fun answer counts same => ?_
  obtain rfl := same
  cases answer with
  | ok status => exact twin_pure status
  | error e => exact .note_bind (twin_pure _)

/-- What the agents differ in comes to the same, and so does all that is built on it. -/
theorem counterpart_counting : Counterpart Station.Like d d.counting.agent where
  askConsent := twin_askConsent d
  bringFile := twin_bringFile d
  stageFile := twin_stageFile d
  checkAndInstall := twin_checkAndInstall d
  onQuery := couples_onQuery Station.like_congruence d

theorem twin_answer (e : Event) : Twin (answer d e) (answer d.counting e) :=
  (counterpart_counting d).answer Station.like_congruence e

theorem twin_route (e : Event) : Twin (route d e) (route d.counting e) :=
  (counterpart_counting d).route Station.like_congruence e

end Events

/-- Two agents that differ in no more than how their hooks fail bring every event to the same
status, from stations that are the same but for that and the log to stations that are so. -/
theorem answer_failsLike {agent other : Agent σ} (alike : agent.FailsLike other)
    (archive : Archive) (profile : Profile) {s s' : Station σ} (like : s.Like s') (e : Event) :
    let d : Device σ := ⟨agent, archive, profile⟩
    let d' : Device σ := ⟨other, archive, profile⟩
    ((runOn (answer d e) s).1 = (runOn (answer d' e) s').1 ∧
      (runOn (answer d e) s).2.Like (runOn (answer d' e) s').2) ∧
    (runOn (route d e) s).1 = (runOn (route d' e) s').1 ∧
      (runOn (route d e) s).2.Like (runOn (route d' e) s').2 := by
  intro d d'
  have same : d.counting = d'.counting := congrArg (Device.mk · archive profile) alike
  have answers := twin_answer d' e
  have routes := twin_route d' e
  rw [← same] at answers routes
  have answersAlike := (twin_answer d e).trans answers.symm
  have routesAlike := (twin_route d e).trans routes.symm
  exact ⟨answersAlike s s' like, routesAlike s s' like⟩

/-- A transfer panics, or answers one and names a file that is not looked at. -/
theorem answer_failsLike_panic :
    let agent : Agent Unit :=
      { Agent.minimal with transferFile := fun _ site => (.error (.panic ⟨none⟩), site) }
    let other : Agent Unit :=
      { Agent.minimal with transferFile := fun _ site => (.ok ⟨1, some ⟨"/moved"⟩⟩, site) }
    let d : Device Unit := ⟨agent, ⟨⟨"/versions"⟩, ⟨"/backups"⟩⟩, ⟨"ecu", none, true⟩⟩
    let d' : Device Unit := ⟨other, ⟨⟨"/versions"⟩, ⟨"/backups"⟩⟩, ⟨"ecu", none, true⟩⟩
    let s : Station Unit := .fresh () (.empty []) .accepting
    let e := Event.prepare ⟨⟨"app", "2"⟩, "ecu", [⟨"2", ⟨"/app"⟩, none, true⟩], none, ["1"]⟩
    (agent.FailsLike other ∧ s.Like s) ∧
      ((runOn (answer d e) s).1 = (runOn (answer d' e) s).1 ∧
        (runOn (answer d e) s).2.Like (runOn (answer d' e) s).2) ∧
      (runOn (route d e) s).1 = (runOn (route d' e) s).1 ∧
        (runOn (route d e) s).2.Like (runOn (route d' e) s).2 := by
  intro agent other d d' s e
  have alike : agent.FailsLike other := rfl
  exact ⟨⟨alike, .refl s⟩, answer_failsLike alike _ _ (.refl s) e⟩

end Course
end OtaAgent
