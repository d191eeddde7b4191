import OtaAgent.Proofs.Course.Coupled
import OtaAgent.Session

set_option autoImplicit false

namespace OtaAgent

variable {σ α β : Type}

/-- Stations that are alike stay alike when the same call of any hook follows from both. -/
structure Station.FullCongruence (alike : Station σ → Station σ → Prop) : Prop
    extends Station.Congruence alike where
  told {s twin : Station σ} (like : alike s twin) (hook : HookCall) (site : Site σ) :
    alike (s.called hook site) (twin.called hook site)

namespace Session

open Unguarded (runOn_bind)

section Runs

variable (d : Device σ) (s : Station σ)

theorem runOn_call (hook : Deed σ α) (trace : α → HookCall) :
    Unguarded.runOn (Course.call hook trace) s =
      (.ok (hook s.site).1, s.called (trace (hook s.site).1) (hook s.site).2) := rfl

/-- What the session makes of the answer to its first call. -/
def preparation : Answer Unit → Except Panic (Except Error Unit)
  | .ok () => .ok (.ok ())
  | .error (.error e) => .ok (.error e)
  | .error (.panic p) => .error p

theorem runOn_prepare : (prepare d).runOn s =
    (preparation (d.agent.init s.site).1,
      s.called (.init (d.agent.init s.site).1) (d.agent.init s.site).2) := by
  unfold prepare
  rw [runOn_bind, runOn_call]
  cases (d.agent.init s.site).1 with
  | ok _ => rfl
  | error failure => cases failure <;> rfl

theorem runOn_offerMessage (kind raw : String) : (offerMessage d kind raw).runOn s =
    let (taken, site) := d.agent.onMessage kind raw s.site
    (taken, s.called (.onMessage kind taken) site) := by
  unfold offerMessage
  rw [runOn_bind, runOn_call]
  cases d.agent.onMessage kind raw s.site with
  | mk taken site => cases taken <;> rfl

theorem runOn_onPresence (connected : Bool) : (Course.onPresence d connected).runOn s =
    match d.agent.presence connected s.site with
    | (.ok advice, site) => (.ok advice, (s.called (.presence connected (.ok advice)) site).noted
        ⟨.info, "DMC-PRESENCE",
          if connected then "device manager connected" else "device manager disconnected"⟩)
    | (.error p, site) => (.error p, s.called (.presence connected (.error p)) site) := by
  unfold Course.onPresence
  rw [runOn_bind, runOn_call]
  cases d.agent.presence connected s.site with
  | mk advice site => cases advice <;> rfl

theorem runOn_finally (act : Unguarded σ Unit) (f : Station σ → Station σ) :
    Unguarded.runOn (try act finally modify f) s = ((act.runOn s).1, f (act.runOn s).2) := by
  simp only [Unguarded.runOn, ExceptT.run, StateT.run, tryFinally, tryFinally', Functor.map,
    ExceptT.map, ExceptT.mk, bind, StateT.bind]
  cases act s with
  | mk result next => cases result <;> rfl

/-- Whether an act is done or panics, its entries are in the log. -/
theorem runOn_logging (book : Option Logbook) (act : Unguarded σ Unit) :
    (logging book act).runOn s =
      ((act.runOn s).1, logged book s.journal.length (act.runOn s).2) := by
  have begun : Unguarded.runOn (get : Unguarded σ (Station σ)) s = (.ok s, s) := rfl
  unfold logging
  rw [runOn_bind, begun]
  exact runOn_finally s act _

end Runs

/-- From stations that are alike, both come to the same result and to stations that are alike. -/
def Couples (alike : Station σ → Station σ → Prop) (c twin : StateM (Station σ) α) : Prop :=
  ∀ s s' : Station σ, alike s s' →
    (c.run s).1 = (twin.run s').1 ∧ alike (c.run s).2 (twin.run s').2

section Rules

variable {alike : Station σ → Station σ → Prop}

theorem couples_pure (a : α) :
    Couples alike (pure a : StateM (Station σ) α) (pure a) := fun _ _ like => ⟨rfl, like⟩

theorem Couples.bind {c twin : StateM (Station σ) α} {f g : α → StateM (Station σ) β}
    (first : Couples alike c twin) (rest : ∀ a, Couples alike (f a) (g a)) :
    Couples alike (c >>= f) (twin >>= g) := by
  intro s s' like
  obtain ⟨results, stations⟩ := first s s' like
  have follows : Couples alike (f (c.run s).1) (g (twin.run s').1) := by
    rw [results]
    exact rest _
  exact follows _ _ stations

theorem Couples.mapM {f g : β → StateM (Station σ) α} (each : ∀ b, Couples alike (f b) (g b))
    (bs : List β) : Couples alike (bs.mapM f) (bs.mapM g) := by
  induction bs with
  | nil => exact couples_pure []
  | cons b bs ih =>
    rw [List.mapM_cons, List.mapM_cons]
    exact (each b).bind fun _ => ih.bind fun _ => couples_pure _

variable {c twin : Unguarded σ α}

/-- A panic that comes of both keeps back what follows. -/
theorem Couples.andThen {f g : α → Unguarded σ β} (first : Couples alike c.run twin.run)
    (rest : ∀ a, Couples alike (f a).run (g a).run) :
    Couples alike (c >>= f).run (twin >>= g).run := by
  rw [ExceptT.run_bind, ExceptT.run_bind]
  refine .bind first fun result => ?_
  cases result with
  | ok a => exact rest a
  | error p => exact couples_pure _

theorem couples_lift {c twin : StateM (Station σ) α} (same : Couples alike c twin) :
    Couples alike (liftM c : Unguarded σ α).run (liftM twin : Unguarded σ α).run := by
  intro s s' like
  obtain ⟨results, stations⟩ := same s s' like
  exact ⟨congrArg Except.ok results, stations⟩

theorem couples_of_runOn
    (same : ∀ s s', alike s s' → (c.runOn s).1 = (twin.runOn s').1 ∧
      alike (c.runOn s).2 (twin.runOn s').2) : Couples alike c.run twin.run := same

/-- Only one side does `c`, which has `a` for its result. -/
theorem Couples.before {a : α} {f : α → Unguarded σ β} {rest : Unguarded σ β}
    (first : Couples alike c.run (pure a : Unguarded σ α).run)
    (same : Couples alike (f a).run rest.run) : Couples alike (c >>= f).run rest.run := by
  intro s s' like
  obtain ⟨result, stations⟩ := first s s' like
  have ran : c.runOn s = (.ok a, (c.runOn s).2) := Prod.ext result rfl
  have goes : (c >>= f).run.run s = (f a).run.run (c.runOn s).2 := by
    rw [show (c >>= f).run.run s = Unguarded.runOn (c >>= f) s from rfl, runOn_bind, ran]
    rfl
  rw [goes]
  exact same _ _ stations

end Rules

variable {alike : Station σ → Station σ → Prop} (congruence : Station.FullCongruence alike)
  (d : Device σ)

include congruence

theorem couples_note (level : Level) (code message : String) :
    Couples alike (note level code message).run (note level code message).run :=
  fun _ _ like => ⟨rfl, congruence.noted like _⟩

theorem couples_answer (e : Event) :
    Couples alike (Course.answer d e).run (Course.answer d e).run :=
  (Course.counterpart_self congruence.toCongruence d).answer congruence.toCongruence e

theorem couples_route (e : Event) :
    Couples alike (Course.route d e).run (Course.route d e).run :=
  (Course.counterpart_self congruence.toCongruence d).route congruence.toCongruence e

theorem couples_prepare : Couples alike (prepare d).run (prepare d).run := by
  refine couples_of_runOn fun s s' like => ?_
  rw [runOn_prepare, runOn_prepare, congruence.site like]
  exact ⟨rfl, congruence.told like _ _⟩

theorem couples_offerMessage (kind raw : String) :
    Couples alike (offerMessage d kind raw).run (offerMessage d kind raw).run := by
  refine couples_of_runOn fun s s' like => ?_
  rw [runOn_offerMessage, runOn_offerMessage, congruence.site like]
  exact ⟨rfl, congruence.told like _ _⟩

theorem couples_onPresence (connected : Bool) :
    Couples alike (Course.onPresence d connected).run (Course.onPresence d connected).run := by
  refine couples_of_runOn fun s s' like => ?_
  rw [runOn_onPresence, runOn_onPresence, congruence.site like]
  split
  · exact ⟨rfl, congruence.noted (congruence.told like _ _) _⟩
  · exact ⟨rfl, congruence.told like _ _⟩

theorem couples_attend (kind raw : String) :
    Couples alike (attend d kind raw).run (attend d kind raw).run := by
  unfold attend
  split
  · exact couples_note congruence _ _ _
  · refine .andThen (couples_lift (couples_route congruence d _)) fun result => ?_
    cases result with
    | ok _ => exact couples_pure _
    | error e => exact couples_note congruence _ _ _

theorem couples_receive (item : Arrival) :
    Couples alike (receive d item).run (receive d item).run := by
  cases item with
  | presence connected =>
    exact .andThen (couples_onPresence congruence d connected) fun _ => couples_pure _
  | message raw =>
    refine .andThen (couples_offerMessage congruence d _ raw) fun taken => ?_
    cases taken with
    | true => exact couples_note congruence _ _ _
    | false => exact couples_attend congruence d _ raw

omit congruence in
/-- Without a log to keep, nothing but the act is done. -/
theorem couples_logging {c twin : Unguarded σ Unit} (same : Couples alike c.run twin.run) :
    Couples alike (logging none c).run (logging none twin).run := by
  refine couples_of_runOn fun s s' like => ?_
  rw [runOn_logging, runOn_logging]
  exact same s s' like

theorem couples_receiveAll (arrivals : List Arrival) :
    Couples alike (receiveAll d arrivals).run (receiveAll d arrivals).run := by
  induction arrivals with
  | nil => exact couples_pure _
  | cons item rest ih =>
    exact .andThen (couples_logging (couples_receive congruence d item)) fun _ => ih

theorem couples_untilEnd (arrivals : List Arrival) (ending : Ending) :
    Couples alike (untilEnd d arrivals ending).run (untilEnd d arrivals ending).run :=
  .andThen (couples_receiveAll congruence d arrivals) fun _ =>
    couples_logging (couples_note congruence _ _ _)

/-- Two sessions that differ in what arrives come to the same if they deal alike with it. -/
theorem couples_serve (session : Session σ) {bus other : Bus} {ending : Ending}
    {f : List Arrival → List Arrival} (joins : ∀ r, other.join r = (bus.join r).map f)
    (served : ∀ arrivals, Couples alike (untilEnd session.device arrivals ending).run
      (untilEnd session.device (f arrivals) ending).run) :
    Couples alike (session.serve bus ending).run (session.serve other ending).run := by
  refine .andThen (couples_prepare congruence session.device) fun answer => ?_
  cases answer with
  | error failure => exact couples_pure _
  | ok _ =>
    dsimp only
    rw [joins]
    cases bus.join session.registration with
    | error e => exact couples_pure _
    | ok arrivals =>
      refine .andThen (couples_logging (couples_note congruence _ _ _)) fun _ => ?_
      exact .andThen (served arrivals) fun _ => couples_pure _

end Session
end OtaAgent
