import OtaAgent.Proofs.Course.Reachable
import OtaAgent.Proofs.Session.Coupled

set_option autoImplicit false

namespace OtaAgent

variable {σ : Type}

/-- Something is done about the event on a device for `handler`. -/
def Event.matters (handler : String) : Event → Bool
  | .confirmed .. | .downloading .. | .unhandled _ => false
  | e => e.handler? == some handler

def Arrival.matters (handler : String) : Arrival → Bool
  | .presence _ => true
  | .message raw =>
    match Event.parse raw with
    | .ok e => e.matters handler
    | .error _ => false

/-- The bus, with nothing arriving but what matters to `handler`. -/
def Bus.sifted (bus : Bus) (handler : String) : Bus :=
  { bus with join := fun r => (bus.join r).map (·.filter (·.matters handler)) }

/-- The agent takes no message and keeps nothing of those it is offered. -/
def Agent.Unconcerned (agent : Agent σ) : Prop :=
  ∀ kind raw site, agent.onMessage kind raw site = (.ok false, site)

def HookCall.isOnMessage : HookCall → Bool
  | .onMessage .. => true
  | _ => false

namespace Station

/-- The stations are the same but for messages that were offered to the agent and entries in the
log, of which `s` may have more. -/
structure Outtalks (s twin : Station σ) : Prop where
  site : s.site = twin.site
  outbox : s.outbox = twin.outbox
  standing : s.standing = twin.standing
  calls : s.calls.filter (!·.hook.isOnMessage) = twin.calls.filter (!·.hook.isOnMessage)
  journal : twin.journal.Sublist s.journal

theorem Outtalks.refl (s : Station σ) : s.Outtalks s := ⟨rfl, rfl, rfl, rfl, .refl _⟩

theorem Outtalks.noted {s twin : Station σ} (like : s.Outtalks twin) (e : LogEntry) :
    (s.noted e).Outtalks twin :=
  { like with journal := List.sublist_append_of_sublist_left like.journal }

theorem Outtalks.noted_both {s twin : Station σ} (like : s.Outtalks twin) (e : LogEntry) :
    (s.noted e).Outtalks (twin.noted e) :=
  { like with journal := like.journal.append_right [e] }

theorem Outtalks.offeredMessage {s twin : Station σ} (like : s.Outtalks twin) (kind : String)
    (taken : Except Panic Bool) : (s.called (.onMessage kind taken) s.site).Outtalks twin :=
  { like with
    calls := by
      rw [calls_called, List.filter_append, like.calls]
      exact List.append_nil _ }

theorem Outtalks.called {s twin : Station σ} (like : s.Outtalks twin) (hook : HookCall)
    (site : Site σ) : (s.called hook site).Outtalks (twin.called hook site) :=
  { like with
    site := rfl
    calls := by
      rw [calls_called, calls_called, List.filter_append, List.filter_append, like.calls,
        like.site] }

theorem outtalks_congruence : FullCongruence (Outtalks (σ := σ)) where
  site like := like.site
  standing like := like.standing
  noted like e := like.noted_both e
  offered like v :=
    offered_of_outbox like.outbox (fun _ => { like with outbox := rfl }) Outtalks.noted_both v
  called like hook _ site := like.called hook site
  changed like _ := { like with site := rfl }
  movedTo like _ := { like with standing := rfl }
  told like hook site := like.called hook site

end Station

namespace Course

variable {d : Device σ} {s : Station σ}

/-- An event that does not matter leaves nothing but an entry in the log, whether it is passed over
or dealt with. -/
theorem ensures_route_of_not_matters {e : Event} (idle : e.matters d.profile.handler = false) :
    Ensures (route d e) s fun _ after => ∃ entry, after = s.noted entry := by
  refine ensures_route (fun _ entry _ _ => ⟨entry, rfl⟩) fun ours => ?_
  cases e with
  | confirmed | downloading | unhandled => exact (ensures_note ..).mpr ⟨_, rfl⟩
  | query handler | offered handler =>
    simp [Event.matters, Event.handler?, ours handler rfl] at idle
  | prepare order | install order =>
    simp [Event.matters, Event.handler?, ours order.handler rfl] at idle

end Course

namespace Session

variable {d : Device σ} {raw : String}

theorem couples_note_pure (level : Level) (code message : String) :
    Couples (Station.Outtalks (σ := σ)) (note level code message).run
      (pure () : Unguarded σ Unit).run :=
  fun _ _ like => ⟨rfl, like.noted _⟩

theorem couples_route_pure {e : Event} (idle : e.matters d.profile.handler = false) :
    Couples Station.Outtalks (Course.route d e).run (pure (.ok ())) := by
  intro s s' like
  obtain ⟨_, after, ran, entry, rfl⟩ :=
    (Course.ensures_route_of_not_matters (s := s) idle).exists_ok
  have ran : (Course.route d e).run.run s = (.ok (), s.noted entry) := ran
  rw [ran]
  exact ⟨rfl, like.noted entry⟩

theorem couples_attend_pure (idle : (Arrival.message raw).matters d.profile.handler = false)
    (kind : String) :
    Couples Station.Outtalks (attend d kind raw).run (pure () : Unguarded σ Unit).run := by
  unfold attend
  simp only [Arrival.matters] at idle
  cases parsed : Event.parse raw with
  | error e => exact couples_note_pure _ _ _
  | ok e =>
    rw [parsed] at idle
    exact .before (couples_lift (couples_route_pure idle)) (couples_pure _)

/-- A message that does not matter is as if it had not come, once the agent was offered it. -/
theorem couples_receive_pure (unconcerned : d.agent.Unconcerned)
    (idle : (Arrival.message raw).matters d.profile.handler = false) :
    Couples Station.Outtalks (receive d (.message raw)).run (pure () : Unguarded σ Unit).run := by
  have offered (kind : String) : Couples Station.Outtalks (offerMessage d kind raw).run
      (pure false : Unguarded σ Bool).run := by
    refine couples_of_runOn fun s s' like => ?_
    rw [runOn_offerMessage, unconcerned]
    exact ⟨rfl, like.offeredMessage kind (.ok false)⟩
  exact .before (offered _) (couples_attend_pure idle _)

theorem couples_receiveAll_sifted (unconcerned : d.agent.Unconcerned) (arrivals : List Arrival) :
    Couples Station.Outtalks (receiveAll d arrivals).run
      (receiveAll d (arrivals.filter (·.matters d.profile.handler))).run := by
  induction arrivals with
  | nil => exact couples_pure _
  | cons item rest ih =>
    cases matter : item.matters d.profile.handler with
    | true =>
      rw [List.filter_cons_of_pos matter]
      have receives := couples_receive Station.outtalks_congruence d item
      exact .andThen (couples_logging receives) fun _ => ih
    | false =>
      -- Only the session with all the traffic takes this step.
      rw [List.filter_cons_of_neg (by simp [matter])]
      cases item with
      | presence connected => cases matter
      | message raw =>
        exact .before (couples_logging (couples_receive_pure unconcerned matter)) ih

/-- Leaving out all that does not matter changes neither the result nor anything but the log and the
messages that the agent was offered. -/
theorem serve_sifted (session : Session σ) (unconcerned : session.device.agent.Unconcerned)
    (bus : Bus) (ending : Ending) (s : Station σ) :
    let ran := (session.serve bus ending).runOn s
    let sifted := (session.serve (bus.sifted session.device.profile.handler) ending).runOn s
    ran.1 = sifted.1 ∧ ran.2.Outtalks sifted.2 := by
  have congruence := Station.outtalks_congruence (σ := σ)
  refine couples_serve congruence session (fun _ => rfl) (fun arrivals => ?_) s s (.refl s)
  exact .andThen (couples_receiveAll_sifted unconcerned arrivals) fun _ =>
    couples_logging (couples_note congruence _ _ _)

/-- Between the comings and goings of the device manager arrive a text that is no message and a
message of a type that is not known. -/
theorem serve_sifted_noise :
    let session : Session Unit :=
      ⟨⟨.minimal, ⟨⟨"/versions"⟩, ⟨"/backups"⟩⟩, ⟨"ecu", none, true⟩⟩,
        ⟨"tcp://localhost:9133", ⟨"/certs"⟩, ⟨"/cache"⟩, ⟨"/backups"⟩, false, "", false, false⟩⟩
    let noise := ["noise", "\x7b\"type\": \"xl4.other\"\x7d"]
    let bus := Bus.inMemory (.presence true :: noise.map .message ++ [.presence false]) false false
    let s := .fresh () (.empty []) .accepting
    (session.device.agent.Unconcerned ∧
      ∀ raw ∈ noise, (Arrival.message raw).matters session.device.profile.handler = false) ∧
      let ran := (session.serve bus .closed).runOn s
      let sifted := (session.serve (bus.sifted session.device.profile.handler) .closed).runOn s
      ran.1 = sifted.1 ∧ ran.2.Outtalks sifted.2 := by
  intro session noise bus s
  have unconcerned : session.device.agent.Unconcerned := fun _ _ _ => rfl
  have idle : ∀ raw ∈ noise, (Arrival.message raw).matters session.device.profile.handler = false :=
    by decide
  exact ⟨⟨unconcerned, idle⟩, serve_sifted session unconcerned bus .closed s⟩

end Session
end OtaAgent
