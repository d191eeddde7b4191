import OtaAgent.Proofs.Session.Coupled

set_option autoImplicit false

namespace OtaAgent

variable {σ : Type}

/-- What the agent is told of an arrival first. -/
inductive Heading
  | presence (connected : Bool)
  | message (kind : String)
  deriving DecidableEq, Repr

def Arrival.heading : Arrival → Heading
  | .presence connected => .presence connected
  | .message raw => .message ((messageKind? raw).getD "")

/-- What the agent was told of an arrival, and whether it panicked at that. -/
def HookCall.notice? : HookCall → Option (Heading × Except Panic Unit)
  | .presence connected advice => some (.presence connected, advice.map fun _ => ())
  | .onMessage kind taken => some (.message kind, taken.map fun _ => ())
  | _ => none

theorem HookCall.notice?_eq_none {hook : HookCall} (unnoticed : hook.isNotice = false) :
    hook.notice? = none := by
  cases hook with
  | presence connected advice | onMessage kind taken => cases unnoticed
  | _ => rfl

namespace Station

def notices (s : Station σ) : List (Heading × Except Panic Unit) :=
  s.calls.filterMap (·.hook.notice?)

@[simp] theorem notices_noted (s : Station σ) (e : LogEntry) : (s.noted e).notices = s.notices :=
  rfl

theorem notices_called (s : Station σ) (hook : HookCall) (site : Site σ) :
    (s.called hook site).notices = s.notices ++ hook.notice?.toList := by
  rw [notices, calls_called, List.filterMap_append]
  cases noticed : hook.notice? <;> simp [notices, noticed]

/-- A station beside itself: acts that do not tell the agent of an arrival leave what it was
told. -/
theorem same_congruence (told : List (Heading × Except Panic Unit)) :
    Congruence fun s twin : Station σ => s = twin ∧ s.notices = told where
  site like := congrArg _ like.1
  standing like := congrArg _ like.1
  noted like e := ⟨congrArg (·.noted e) like.1, like.2⟩
  offered {s twin} like v :=
    ⟨congrArg (·.offered v) like.1, by rw [notices, calls_offered]; exact like.2⟩
  called {s twin} like hook unnoticed site :=
    ⟨congrArg (·.called hook site) like.1, by
      rw [notices_called, HookCall.notice?_eq_none unnoticed, like.2]
      exact List.append_nil told⟩
  changed like site := ⟨congrArg (fun s => { s with site }) like.1, like.2⟩
  movedTo like t := ⟨congrArg (·.movedTo t) like.1, like.2⟩

end Station

namespace Session

open Unguarded (runOn_bind)

variable (d : Device σ)

theorem notices_route (e : Event) (s : Station σ) :
    ((Course.route d e).runOn s).2.notices = s.notices :=
  have congruence := Station.same_congruence (σ := σ) s.notices
  ((Course.counterpart_self congruence d).route congruence e s s ⟨rfl, rfl⟩).2.2

theorem runOn_lift {α : Type} (c : StateM (Station σ) α) (s : Station σ) :
    Unguarded.runOn (liftM c) s = (.ok (c.run s).1, (c.run s).2) := rfl

/-- Nothing that is done about a message that the agent has not taken ends the session. -/
theorem attend_goesOn (kind raw : String) (s : Station σ) :
    ((attend d kind raw).runOn s).1 = .ok () ∧
      ((attend d kind raw).runOn s).2.notices = s.notices := by
  unfold attend
  split
  · exact ⟨rfl, rfl⟩
  · rename_i event _
    have told := notices_route d event s
    rw [runOn_bind, runOn_lift]
    dsimp only
    split
    · exact ⟨rfl, told⟩
    · exact ⟨rfl, told⟩

def received (s : Station σ) (item : Arrival) : Station σ := ((receive d item).runOn s).2

theorem notices_presence (connected : Bool) (s : Station σ) :
    (received d s (.presence connected)).notices =
      s.notices ++ [(.presence connected, ((receive d (.presence connected)).runOn s).1)] := by
  unfold received receive
  rw [runOn_bind, runOn_onPresence]
  cases d.agent.presence connected s.site with
  | mk advice site => cases advice <;> exact Station.notices_called s _ site

theorem notices_message (raw : String) (s : Station σ) :
    (received d s (.message raw)).notices = s.notices ++
      [(.message ((messageKind? raw).getD ""), ((receive d (.message raw)).runOn s).1)] := by
  unfold received receive
  dsimp only
  rw [runOn_bind, runOn_offerMessage]
  cases d.agent.onMessage ((messageKind? raw).getD "") raw s.site with
  | mk taken site =>
    match taken with
    | .error p => exact Station.notices_called s _ site
    | .ok true => exact Station.notices_called s _ site
    | .ok false =>
      obtain ⟨goesOn, told⟩ := attend_goesOn d ((messageKind? raw).getD "") raw
        (s.called (.onMessage ((messageKind? raw).getD "") (.ok false)) site)
      simp only [Bool.false_eq_true, if_false]
      rw [goesOn, told]
      exact Station.notices_called s _ site

/-- The agent is told of every arrival once, and the loop goes on unless it panics at that. -/
theorem notices_received (s : Station σ) (item : Arrival) :
    (received d s item).notices =
      s.notices ++ [(item.heading, ((receive d item).runOn s).1)] := by
  cases item with
  | presence connected => exact notices_presence d connected s
  | message raw => exact notices_message d raw s

theorem notices_logged (book : Option Logbook) (written : Nat) (s : Station σ) :
    (logged book written s).notices = s.notices := by
  cases book <;> rfl

/-- The station after an arrival was dealt with, and what that has noted is in the log. -/
def accounted (book : Option Logbook) (s : Station σ) (item : Arrival) : Station σ :=
  logged book s.journal.length (received d s item)

/-- How far the loop comes with all that arrives, what its result is and what the agent is told
meanwhile: it deals with everything, or up to an arrival at which the hook panics. -/
inductive GoesOver : List Arrival → Except Panic Unit → List Arrival →
    List (Heading × Except Panic Unit) → Prop
  | all (arrivals : List Arrival) :
      GoesOver arrivals (.ok ()) arrivals (arrivals.map fun item => (item.heading, .ok ()))
  | upTo (before : List Arrival) (item : Arrival) (rest : List Arrival) (p : Panic) :
      GoesOver (before ++ item :: rest) (.error p) (before ++ [item])
        ((before.map fun item => (item.heading, .ok ())) ++ [(item.heading, .error p)])

theorem GoesOver.next {arrivals dealt : List Arrival} {result : Except Panic Unit}
    {told : List (Heading × Except Panic Unit)} (goes : GoesOver arrivals result dealt told)
    (item : Arrival) :
    GoesOver (item :: arrivals) result (item :: dealt) ((item.heading, .ok ()) :: told) := by
  cases goes with
  | all => exact .all (item :: arrivals)
  | upTo before other rest p => exact .upTo (item :: before) other rest p

/-- All that arrives is dealt with in its order, one after the other, whichever hooks fail on the
way; only a panic of the hook that is told of an arrival keeps back those after it. -/
theorem receiveAll_goesOver (arrivals : List Arrival) (book : Option Logbook) (s : Station σ) :
    let ran := (receiveAll d arrivals book).runOn s
    ∃ dealt told, GoesOver arrivals ran.1 dealt told ∧
      ran.2 = dealt.foldl (accounted d book) s ∧ ran.2.notices = s.notices ++ told := by
  -- What is left after one arrival is dealt with from the station that it leaves.
  induction arrivals generalizing s with
  | nil => exact ⟨[], [], .all [], rfl, (List.append_nil _).symm⟩
  | cons item rest ih =>
    have noticed := notices_received d s item
    unfold receiveAll
    rw [runOn_bind, runOn_logging]
    cases answered : ((receive d item).runOn s).1 with
    | error p =>
      rw [answered] at noticed
      exact ⟨[item], [(item.heading, .error p)], .upTo [] item rest p, rfl,
        (notices_logged ..).trans noticed⟩
    | ok _ =>
      obtain ⟨dealt, told, goes, after, notices⟩ := ih (accounted d book s item)
      rw [answered] at noticed
      rw [accounted, notices_logged, noticed, List.append_assoc] at notices
      exact ⟨item :: dealt, (item.heading, .ok ()) :: told, goes.next item, after, notices⟩

/-- An agent that panics when it is told of the device manager stops the loop, and what arrives
after that is not dealt with. -/
theorem receiveAll_presence_panic :
    let d : Device Unit :=
      ⟨{ Agent.minimal with presence := fun _ site => (.error ⟨some "boom"⟩, site) },
        ⟨⟨"/versions"⟩, ⟨"/backups"⟩⟩, ⟨"ecu", none, true⟩⟩
    let ran := (receiveAll d [.presence true, .presence false]).runOn
      (.fresh () (.empty []) .accepting)
    ran.1 = .error ⟨some "boom"⟩ ∧
      ran.2.notices = [(.presence true, .error ⟨some "boom"⟩)] :=
  ⟨rfl, rfl⟩

end Session
end OtaAgent
