import OtaAgent.Proofs.Course.Dealing

set_option autoImplicit false

namespace OtaAgent

variable {σ : Type}

def HookCall.isStep : HookCall → Bool
  | .confirmDownload .. | .transferFile .. | .prepareInstall .. | .preInstall .. | .install ..
  | .setVersion .. | .postInstall .. => true
  | .init .. | .getVersion .. | .presence .. | .onMessage .. => false

namespace Station

/-- `after` is what becomes of `s` while no event is dealt with. -/
structure Pauses (s after : Station σ) : Prop where
  standing : after.standing = s.standing
  calls : ∃ others, after.calls = s.calls ++ others ∧ ∀ call ∈ others, call.hook.isStep = false

/-- The phase and what is staged and awaited are as they are between two events. -/
structure InOrder (s : Station σ) : Prop where
  resting : s.phase ∈ [.idle, .confirmDownload, .awaitingTransfer, .preInstall, .completed,
    .failed, .rolledBack, .aborted]
  staged : s.staged.isSome ↔ s.phase = .preInstall
  prepared : ∀ u, s.staged = some u → u.prepared = some .ready
  awaited : s.awaited.isSome ↔ s.phase = .confirmDownload ∨ s.phase = .awaitingTransfer

theorem inOrder_of_atRest {s : Station σ} (rest : s.standing.AtRest) : s.InOrder := by
  obtain ⟨site, outbox, journal, calls, phase, staged, awaited⟩ := s
  cases rest with
  | idle | postponed release | agreed release => constructor <;> simp
  | staged u ready => constructor <;> simp [ready]
  | finished phase terminal => constructor <;> cases phase <;> simp_all [Phase.isTerminal]

end Station

namespace Course

/-- The stations that the course of `d` can come to. -/
inductive Reachable (d : Device σ) : Station σ → Prop
  | fresh (own : σ) (files : Files.Tree) (outbox : Outbox) : Reachable d (.fresh own files outbox)
  | dealt {s after : Station σ} {e : Event} {result : Except Error Unit} (reached : Reachable d s)
      (ran : runOn (deal d e) s = (result, after)) : Reachable d after
  | paused {s after : Station σ} (reached : Reachable d s) (pause : s.Pauses after) :
      Reachable d after

variable {d : Device σ} {s : Station σ}

theorem deal_leads (e : Event) (rest : s.standing.AtRest) :
    Leads (deal d e) s fun calls said site standing _ =>
      ∃ status, Deals d s.standing s.site e calls said site standing status := by
  rw [deal_eq_answer]
  exact .bind_pure ((answer_leads e rest).imp fun _ _ _ _ status goes => ⟨status, goes⟩)

theorem Reachable.atRest (reached : Reachable d s) : s.standing.AtRest := by
  induction reached with
  | fresh own files outbox => exact .idle
  | dealt reached ran ih =>
    obtain ⟨_, after, same, _, _, ⟨status, goes⟩, _⟩ := (deal_leads _ ih).exists_ok
    rw [ran, Prod.mk.injEq] at same
    rw [same.2]
    exact goes.atRest ih
  | paused reached pause ih =>
    rw [pause.standing]
    exact ih

theorem Reachable.deal (reached : Reachable d s) (e : Event) :
    Ensures (deal d e) s fun _ after => Reachable d after := by
  obtain ⟨_, after, ran, _⟩ := (deal_leads e reached.atRest).exists_ok
  exact (ensures_of_runOn ran).mpr (reached.dealt ran)

theorem Reachable.next (reached : Reachable d s) (e : Event) :
    Reachable d (runOn (Course.deal d e) s).2 :=
  reached.dealt (e := e) rfl

/-- An event is passed over with a log entry if it is addressed to another handler, and is dealt
with otherwise. -/
theorem ensures_route {e : Event} {post : Unit → Station σ → Prop}
    (passed : ∀ handler entry, e.handler? = some handler → handler ≠ d.profile.handler →
      post () (s.noted entry))
    (dealt : (∀ handler, e.handler? = some handler → handler = d.profile.handler) →
      Ensures (deal d e) s post) :
    Ensures (route d e) s post := by
  unfold route
  split
  · rename_i handler named
    split
    · exact (ensures_note ..).mpr (passed handler _ named ‹_›)
    · rename_i ours
      exact dealt fun other same =>
        (Option.some.inj (same.symm.trans named)).trans (Decidable.of_not_not ours)
  · rename_i unaddressed
    exact dealt fun other same => by cases unaddressed.symm.trans same

/-- Passing over an event is a pause. -/
theorem Reachable.route (reached : Reachable d s) (e : Event) :
    Ensures (route d e) s fun _ after => Reachable d after :=
  ensures_route
    (fun _ _ _ _ => reached.paused ⟨rfl, [], (List.append_nil _).symm, by simp⟩)
    fun _ => reached.deal e

/-- No event is an error, whatever came before it and whatever the agent does, and each leaves the
course in order. -/
theorem deal_inOrder (reached : Reachable d s) (e : Event) :
    Ensures (deal d e) s (fun _ after => after.InOrder) ∧
      Ensures (route d e) s (fun _ after => after.InOrder) :=
  ⟨(reached.deal e).imp fun _ _ there => Station.inOrder_of_atRest there.atRest,
    (reached.route e).imp fun _ _ there => Station.inOrder_of_atRest there.atRest⟩

/-- A download has been agreed to, and an order for another release comes. -/
theorem deal_inOrder_superseding :
    let d : Device Unit := ⟨.minimal, ⟨⟨"/versions"⟩, ⟨"/backups"⟩⟩, ⟨"ecu", none, true⟩⟩
    let s := (runOn (deal d (.offered "ecu" ⟨"app", "2"⟩)) (.fresh () (.empty []) .accepting)).2
    let e := Event.install ⟨⟨"app", "3"⟩, "ecu", [⟨"3", ⟨"/app"⟩, none, true⟩], none, []⟩
    s.awaited = some ⟨"app", "2"⟩ ∧ Ensures (deal d e) s (fun _ after => after.InOrder) ∧
      Ensures (route d e) s (fun _ after => after.InOrder) :=
  ⟨rfl, deal_inOrder (.next (.fresh ..) _) _⟩

end Course
end OtaAgent
