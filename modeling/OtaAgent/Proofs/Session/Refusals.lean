import OtaAgent.Proofs.Session.Coupled

set_option autoImplicit false

namespace OtaAgent

variable {σ α : Type}

/-- The envelopes of `said` that a bus takes when it is offered them one after the other. -/
def Outbox.taken (refusal : Nat → Option Error) (said : List Json) : List Json :=
  (said.zipIdx.filter fun (_, i) => (refusal i).isNone).map (·.1)

theorem Outbox.taken_concat (refusal : Nat → Option Error) (said : List Json) (v : Json) :
    taken refusal (said ++ [v]) =
      taken refusal said ++ if (refusal said.length).isNone then [v] else [] := by
  unfold taken
  rw [List.zipIdx_append, List.filter_append, List.map_append, List.zipIdx_singleton, Nat.zero_add]
  cases refused : refusal said.length <;> simp [refused]

example : Outbox.taken (fun i => if i = 1 then some (.bus .refused) else none)
    [.null, .bool true, .bool false] = [.null, .bool false] := rfl

def LogEntry.isDropping (e : LogEntry) : Bool := e.code == "DIAG-SEND"

namespace Station

/-- The stations are the same but for what was made of the envelopes, which one bus refuses by
`refusal` and the other by `other`. -/
structure Accords (refusal other : Nat → Option Error) (s twin : Station σ) : Prop where
  site : s.site = twin.site
  standing : s.standing = twin.standing
  calls : s.calls = twin.calls
  outbox : ∃ said, s.outbox = ⟨refusal, said.length, Outbox.taken refusal said⟩ ∧
    twin.outbox = ⟨other, said.length, Outbox.taken other said⟩
  journal : s.journal.filter (!·.isDropping) = twin.journal.filter (!·.isDropping)

section Offered

variable {refusal : Nat → Option Error} {s : Station σ} {said : List Json}

theorem outbox_offered_taken
    (offered : s.outbox = ⟨refusal, said.length, Outbox.taken refusal said⟩) (v : Json) :
    (s.offered v).outbox =
      ⟨refusal, (said ++ [v]).length, Outbox.taken refusal (said ++ [v])⟩ := by
  rw [outbox_offered, offered, Outbox.taken_concat]
  cases refused : refusal said.length <;> simp [Outbox.sendAll, Outbox.send, refused]

theorem journal_offered (s : Station σ) (v : Json) :
    (s.offered v).journal.filter (!·.isDropping) = s.journal.filter (!·.isDropping) := by
  unfold offered
  split
  · rfl
  · simp [noted, LogEntry.isDropping]

end Offered

theorem Accords.called {refusal other : Nat → Option Error} {s twin : Station σ}
    (like : s.Accords refusal other twin) (hook : HookCall) (site : Site σ) :
    (s.called hook site).Accords refusal other (twin.called hook site) :=
  { like with
    site := rfl
    calls := by rw [calls_called, calls_called, like.calls, like.site] }

theorem accords_congruence (refusal other : Nat → Option Error) :
    FullCongruence (Accords (σ := σ) refusal other) where
  site like := like.site
  standing like := like.standing
  noted like e := { like with
    journal := by rw [noted, noted, List.filter_append, List.filter_append, like.journal] }
  offered {s twin} like v := by
    obtain ⟨said, outbox, outbox'⟩ := like.outbox
    exact {
      site := by rw [site_offered, site_offered, like.site]
      standing := by rw [standing_offered, standing_offered, like.standing]
      calls := by rw [calls_offered, calls_offered, like.calls]
      outbox := ⟨said ++ [v], outbox_offered_taken outbox v, outbox_offered_taken outbox' v⟩
      journal := by rw [journal_offered, journal_offered, like.journal] }
  called like hook _ site := like.called hook site
  changed like site := { like with site := rfl }
  movedTo like t := { like with standing := rfl }
  told like hook site := like.called hook site

end Station

namespace Session

/-- Whichever envelopes are refused, `c` comes to the same result, and to stations that are the same
but for that. -/
def BestEffort (c : StateM (Station σ) α) : Prop :=
  ∀ (own : σ) (files : Files.Tree) (refusal other : Nat → Option Error),
    let (result, after) := c.run (.fresh own files (.ofRefusal refusal))
    let (result', after') := c.run (.fresh own files (.ofRefusal other))
    result = result' ∧ after.Accords refusal other after'

theorem bestEffort_of_couples {c : StateM (Station σ) α}
    (same : ∀ refusal other, Couples (Station.Accords refusal other) c c) : BestEffort c := by
  intro own files refusal other
  exact same refusal other _ _ ⟨rfl, rfl, rfl, ⟨[], rfl, rfl⟩, rfl⟩

/-- Whatever the agent does and whatever happens, no answer, no hook, nothing that is kept on the
device and no envelope that is offered depends on which envelopes the bus takes. -/
theorem serve_bestEffort (session : Session σ) (events : List Event) (bus : Bus)
    (ending : Ending) :
    BestEffort (events.mapM fun e => (Course.answer session.device e).run) ∧
      BestEffort (events.mapM fun e => (Course.route session.device e).run) ∧
      BestEffort (session.serve bus ending).run := by
  have congruence := Station.accords_congruence (σ := σ)
  refine ⟨bestEffort_of_couples fun refusal other => ?answers,
    bestEffort_of_couples fun refusal other => ?routes,
    bestEffort_of_couples fun refusal other => ?serves⟩
  case answers => exact .mapM (couples_answer (congruence refusal other) session.device) events
  case routes => exact .mapM (couples_route (congruence refusal other) session.device) events
  case serves =>
    exact couples_serve (congruence refusal other) session (f := id) (by simp) fun arrivals =>
      couples_untilEnd (congruence refusal other) session.device arrivals ending

end Session
end OtaAgent
