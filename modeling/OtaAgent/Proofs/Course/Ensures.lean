import OtaAgent.Course

set_option autoImplicit false

namespace OtaAgent

variable {σ α β : Type}

/-- After all of `vs` have been offered, one after the other. -/
def Outbox.sendAll (o : Outbox) (vs : List Json) : Outbox := vs.foldl (fun o v => (o.send v).2) o

@[simp] theorem Outbox.sendAll_nil (o : Outbox) : o.sendAll [] = o := rfl

theorem Outbox.sendAll_append (o : Outbox) (vs ws : List Json) :
    o.sendAll (vs ++ ws) = (o.sendAll vs).sendAll ws := List.foldl_append

structure Standing where
  phase : Phase
  staged : Option Update
  awaited : Option Release
  deriving DecidableEq, Repr

namespace Station

variable (s : Station σ)

def standing : Standing := ⟨s.phase, s.staged, s.awaited⟩

@[simp] theorem phase_standing : s.standing.phase = s.phase := rfl
@[simp] theorem staged_standing : s.standing.staged = s.staged := rfl
@[simp] theorem awaited_standing : s.standing.awaited = s.awaited := rfl

@[simp] theorem standing_mk (site : Site σ) (outbox : Outbox) (journal : List LogEntry)
    (calls : List Call) (phase : Phase) (staged : Option Update) (awaited : Option Release) :
    (Station.mk site outbox journal calls phase staged awaited).standing =
      ⟨phase, staged, awaited⟩ := rfl

def offered (v : Json) : Station σ :=
  match s.outbox.send v with
  | (none, outbox) => { s with outbox }
  | (some e, outbox) => { s with outbox }.noted
      ⟨.warn, "DIAG-SEND", s!"dropping {Report.kind v} envelope: {e.message}"⟩

def reported (d : Device σ) (release : Release) (status : Status) (remarks : Remarks := {}) :
    Station σ :=
  (s.noted ⟨.info, "UPDATE-STATUS", s!"{release.text} -> {status.text}"⟩).offered
    (Report.status d.profile.handler release status remarks)

def entered (target : Phase) : Station σ :=
  { s.noted ⟨.debug, "STATE", s!"{s.phase.text} -> {target.text}"⟩ with phase := target }

section Noted

variable (e : LogEntry)

@[simp] theorem site_noted : (s.noted e).site = s.site := rfl
@[simp] theorem outbox_noted : (s.noted e).outbox = s.outbox := rfl
@[simp] theorem calls_noted : (s.noted e).calls = s.calls := rfl
@[simp] theorem phase_noted : (s.noted e).phase = s.phase := rfl
@[simp] theorem staged_noted : (s.noted e).staged = s.staged := rfl
@[simp] theorem awaited_noted : (s.noted e).awaited = s.awaited := rfl
@[simp] theorem standing_noted : (s.noted e).standing = s.standing := rfl

end Noted

section Called

variable (hook : HookCall) (site : Site σ)

@[simp] theorem site_called : (s.called hook site).site = site := rfl
@[simp] theorem outbox_called : (s.called hook site).outbox = s.outbox := rfl
@[simp] theorem calls_called : (s.called hook site).calls = s.calls ++ [⟨hook, s.site.files⟩] := rfl
@[simp] theorem standing_called : (s.called hook site).standing = s.standing := rfl

end Called

section Offered

variable (v : Json)

@[simp] theorem outbox_offered : (s.offered v).outbox = s.outbox.sendAll [v] := by
  unfold offered
  split <;> simp_all [Outbox.sendAll]

@[simp] theorem site_offered : (s.offered v).site = s.site := by unfold offered; split <;> rfl
@[simp] theorem calls_offered : (s.offered v).calls = s.calls := by unfold offered; split <;> rfl

@[simp] theorem standing_offered : (s.offered v).standing = s.standing := by
  unfold offered
  split <;> rfl

end Offered

section Reported

variable (d : Device σ) (release : Release) (status : Status) (remarks : Remarks)

@[simp] theorem site_reported : (s.reported d release status remarks).site = s.site := by
  simp [reported]

@[simp] theorem outbox_reported : (s.reported d release status remarks).outbox =
    s.outbox.sendAll [Report.status d.profile.handler release status remarks] := by
  simp [reported]

@[simp] theorem calls_reported : (s.reported d release status remarks).calls = s.calls := by
  simp [reported]

@[simp] theorem standing_reported :
    (s.reported d release status remarks).standing = s.standing := by
  simp [reported]

@[simp] theorem phase_reported : (s.reported d release status remarks).phase = s.phase :=
  congrArg Standing.phase (standing_reported s d release status remarks)

end Reported

section Entered

variable (target : Phase)

@[simp] theorem site_entered : (s.entered target).site = s.site := rfl
@[simp] theorem outbox_entered : (s.entered target).outbox = s.outbox := rfl
@[simp] theorem calls_entered : (s.entered target).calls = s.calls := rfl

@[simp] theorem phase_entered : (s.entered target).phase = target := rfl
@[simp] theorem staged_entered : (s.entered target).staged = s.staged := rfl
@[simp] theorem awaited_entered : (s.entered target).awaited = s.awaited := rfl

@[simp] theorem standing_entered :
    (s.entered target).standing = { s.standing with phase := target } := rfl

end Entered

end Station

namespace Course

def Ensures (c : Course σ α) (s : Station σ) (post : α → Station σ → Prop) : Prop :=
  match runOn c s with
  | (.ok a, after) => post a after
  | (.error _, _) => False

theorem Ensures.imp {c : Course σ α} {s : Station σ} {post weaker : α → Station σ → Prop}
    (h : Ensures c s post) (imp : ∀ a after, post a after → weaker a after) :
    Ensures c s weaker := by
  unfold Ensures at h ⊢
  split at h
  · exact imp _ _ h
  · exact h

theorem Ensures.exists_ok {c : Course σ α} {s : Station σ} {post : α → Station σ → Prop}
    (h : Ensures c s post) : ∃ a after, runOn c s = (.ok a, after) ∧ post a after := by
  unfold Ensures at h
  split at h
  · rename_i a after ran
    exact ⟨a, after, ran, h⟩
  · exact h.elim

theorem Ensures.left {c : Course σ α} {s : Station σ} {post : Station σ → Prop}
    (h : Ensures c s fun _ => post) : post (runOn c s).2 := by
  obtain ⟨a, after, ran, there⟩ := h.exists_ok
  rw [ran]
  exact there

theorem ensures_of_runOn {c : Course σ α} {s after : Station σ} {a : α}
    {post : α → Station σ → Prop} (ran : runOn c s = (.ok a, after)) :
    Ensures c s post ↔ post a after := by
  simp only [Ensures, ran]

section Acts

variable (s : Station σ)

@[simp] theorem ensures_pure (a : α) (post : α → Station σ → Prop) :
    Ensures (pure a) s post ↔ post a s := Iff.rfl

@[simp] theorem ensures_bind (c : Course σ β) (f : β → Course σ α) (post : α → Station σ → Prop) :
    Ensures (c >>= f) s post ↔ Ensures c s fun b next => Ensures (f b) next post := by
  unfold Ensures
  rw [runOn_bind]
  cases runOn c s with
  | mk result next => cases result <;> rfl

@[simp] theorem ensures_map (f : β → α) (c : Course σ β) (post : α → Station σ → Prop) :
    Ensures (f <$> c) s post ↔ Ensures c s fun b after => post (f b) after := by
  change Ensures (c >>= fun b => pure (f b)) s post ↔ _
  simp only [ensures_bind, ensures_pure]

@[simp] theorem ensures_get (post : Station σ → Station σ → Prop) :
    Ensures get s post ↔ post s s := Iff.rfl

@[simp] theorem not_ensures_throw (e : Error) (post : α → Station σ → Prop) :
    ¬ Ensures (throw e) s post := id

variable (post : Unit → Station σ → Prop)

@[simp] theorem ensures_set (next : Station σ) : Ensures (set next) s post ↔ post () next := Iff.rfl

@[simp] theorem ensures_modify (f : Station σ → Station σ) :
    Ensures (modify f) s post ↔ post () (f s) := Iff.rfl

@[simp] theorem ensures_note (level : Level) (code message : String) :
    Ensures (note level code message) s post ↔ post () (s.noted ⟨level, code, message⟩) := Iff.rfl

@[simp] theorem ensures_send (v : Json) (post : Bool → Station σ → Prop) :
    Ensures (send v) s post ↔ post (s.outbox.send v).1.isNone (s.offered v) := by
  unfold send Station.offered
  simp only [ensures_bind, ensures_get]
  cases s.outbox.send v with
  | mk refused outbox => cases refused <;> simp

@[simp] theorem ensures_files (post : Files.Tree → Station σ → Prop) :
    Ensures files s post ↔ post s.site.files s := Iff.rfl

@[simp] theorem ensures_enter (target : Phase) :
    Ensures (enter target) s post ↔
      s.standing.phase.canEnter target = true ∧ post () (s.entered target) := by
  unfold enter Phase.enter
  by_cases can : s.phase.canEnter target
  · simp [can, Station.standing, Station.entered, Station.noted]
  · simp [can, Station.standing]

@[simp] theorem ensures_report (d : Device σ) (release : Release) (status : Status)
    (remarks : Remarks) (post : Bool → Station σ → Prop) :
    Ensures (report d release status remarks) s post ↔
      post (s.outbox.send (Report.status d.profile.handler release status remarks)).1.isNone
        (s.reported d release status remarks) := by
  simp only [report, ensures_bind, ensures_note, ensures_send, Station.outbox_noted,
    Station.reported]

theorem ensures_progress (release : Release) (stage : Stage) (percent : Nat)
    (indeterminate : Bool) (inRange : percent ≤ 100) :
    Ensures (progress release stage percent indeterminate) s post ↔
      post () (s.offered (Report.progress release stage percent indeterminate)) := by
  have notOver : ¬ 100 < percent := by omega
  simp [progress, reportProgress, notOver]

@[simp] theorem ensures_call (hook : Deed σ β) (trace : β → HookCall)
    (post : β → Station σ → Prop) :
    Ensures (call hook trace) s post ↔
      post (hook s.site).1 (s.called (trace (hook s.site).1) (hook s.site).2) := by
  simp [call]

@[simp] theorem ensures_ask (name : String) (hook : Hook σ α) (trace : Answer α → HookCall)
    (post : Except Error α → Station σ → Prop) :
    Ensures (ask name hook trace) s post ↔
      post ((hook s.site).1.mapError (·.toError name))
        (s.called (trace (hook s.site).1) (hook s.site).2) := by
  simp [ask]

@[simp] theorem ensures_perform (job : FileJob α) (post : Except Error α → Station σ → Prop) :
    Ensures (perform job) s post ↔
      post (job.runOn s.site.files).1
        { s with site := { s.site with files := (job.runOn s.site.files).2 } } := by
  simp [perform]

end Acts

/-- `c` goes in one of `ways`, each of which names the calls that are made, the envelopes that are
offered, the site and the standing that are left, and the answer. -/
def Leads (c : Course σ α) (s : Station σ)
    (ways : List Call → List Json → Site σ → Standing → α → Prop) : Prop :=
  Ensures c s fun a after => ∃ calls said, ways calls said after.site after.standing a ∧
    after.calls = s.calls ++ calls ∧ after.outbox = s.outbox.sendAll said

section Leads

variable {c : Course σ α} {s next : Station σ}
  {ways wider : List Call → List Json → Site σ → Standing → α → Prop}

theorem Leads.imp (h : Leads c s ways)
    (imp : ∀ calls said site standing a,
      ways calls said site standing a → wider calls said site standing a) :
    Leads c s wider := by
  apply Ensures.imp h
  intro a after led
  obtain ⟨calls, said, goes, made, sent⟩ := led
  exact ⟨calls, said, imp _ _ _ _ _ goes, made, sent⟩

/-- What has been done between `s` and `next` is the beginning of each way. -/
theorem Leads.after (calls : List Call) (said : List Json)
    (made : next.calls = s.calls ++ calls) (sent : next.outbox = s.outbox.sendAll said)
    (rest : Leads c next fun more further => ways (calls ++ more) (said ++ further)) :
    Ensures c next fun a after => ∃ calls said, ways calls said after.site after.standing a ∧
      after.calls = s.calls ++ calls ∧ after.outbox = s.outbox.sendAll said := by
  apply Ensures.imp rest
  intro a after led
  obtain ⟨more, further, goes, madeMore, sentFurther⟩ := led
  refine ⟨calls ++ more, said ++ further, goes, ?_, ?_⟩
  · rw [madeMore, made, List.append_assoc]
  · rw [sentFurther, sent, Outbox.sendAll_append]

theorem Leads.bind {f : α → Course σ β}
    {ends : List Call → List Json → Site σ → Standing → β → Prop} (first : Leads c s ways)
    (rest : ∀ calls said a (next : Station σ), ways calls said next.site next.standing a →
      Leads (f a) next fun more further => ends (calls ++ more) (said ++ further)) :
    Leads (c >>= f) s ends := by
  rw [Leads, ensures_bind]
  apply Ensures.imp first
  intro a next led
  obtain ⟨calls, said, begun, made, sent⟩ := led
  exact Leads.after calls said made sent (rest calls said a next begun)

theorem Leads.get_bind {f : Station σ → Course σ α} (rest : Leads (f s) s ways) :
    Leads (get >>= f) s ways := rest

theorem Leads.files_bind {f : Files.Tree → Course σ α} (rest : Leads (f s.site.files) s ways) :
    Leads (files >>= f) s ways := rest

theorem Leads.note_bind {level : Level} {code message : String} {f : Unit → Course σ α}
    (rest : Leads (f ()) (s.noted ⟨level, code, message⟩) ways) :
    Leads (note level code message >>= f) s ways := rest

theorem Leads.enter_bind {target : Phase} {f : Unit → Course σ α}
    (can : s.standing.phase.canEnter target = true)
    (rest : Leads (f ()) (s.entered target) ways) : Leads (enter target >>= f) s ways := by
  rw [Leads, ensures_bind, ensures_enter]
  exact ⟨can, rest⟩

theorem Leads.pure {a : α} (goes : ways [] [] s.site s.standing a) :
    Leads (pure a : Course σ α) s ways :=
  ⟨[], [], goes, (List.append_nil _).symm, rfl⟩

theorem leads_enter {target : Phase}
    {ways : List Call → List Json → Site σ → Standing → Unit → Prop}
    (can : s.standing.phase.canEnter target = true)
    (goes : ways [] [] s.site { s.standing with phase := target } ()) :
    Leads (enter target) s ways :=
  (ensures_enter ..).mpr ⟨can, [], [], goes, (List.append_nil _).symm, rfl⟩

theorem leads_modify {g : Station σ → Station σ}
    {ways : List Call → List Json → Site σ → Standing → Unit → Prop}
    (calls : (g s).calls = s.calls) (outbox : (g s).outbox = s.outbox)
    (goes : ways [] [] (g s).site (g s).standing ()) : Leads (modify g) s ways :=
  (ensures_modify ..).mpr ⟨[], [], goes, calls.trans (List.append_nil _).symm, outbox⟩

theorem Leads.bind_pure {g : α → β} {ends : List Call → List Json → Site σ → Standing → β → Prop}
    (goes : Leads c s fun calls said site standing a => ends calls said site standing (g a)) :
    Leads (do return g (← c)) s ends := by
  rw [Leads, ensures_bind]
  exact goes

theorem Leads.modify_bind {g : Station σ → Station σ} {f : Unit → Course σ α}
    (calls : (g s).calls = s.calls) (outbox : (g s).outbox = s.outbox)
    (rest : Leads (f ()) (g s) ways) : Leads (modify g >>= f) s ways := by
  rw [Leads, ensures_bind, ensures_modify, ← calls, ← outbox]
  exact rest

theorem Leads.set_bind {f : Unit → Course σ α} (calls : next.calls = s.calls)
    (outbox : next.outbox = s.outbox) (rest : Leads (f ()) next ways) :
    Leads (set next >>= f) s ways := by
  rw [Leads, ensures_bind, ensures_set, ← calls, ← outbox]
  exact rest

theorem Leads.perform_bind {job : FileJob β} {f : Except Error β → Course σ α}
    {result : Except Error β} {after : Files.Tree} (ran : job.runOn s.site.files = (result, after))
    (rest : Leads (f result) { s with site := { s.site with files := after } } ways) :
    Leads (perform job >>= f) s ways := by
  rw [Leads, ensures_bind, ensures_perform, ran]
  exact rest

theorem Leads.call_bind {hook : Deed σ β} {trace : β → HookCall} {result : β} {after : Site σ}
    {f : β → Course σ α} (did : hook s.site = (result, after))
    (rest : Leads (f result) (s.called (trace result) after)
      fun more said => ways (⟨trace result, s.site.files⟩ :: more) said) :
    Leads (call hook trace >>= f) s ways := by
  rw [Leads, ensures_bind, ensures_call, did]
  exact Leads.after [⟨trace result, s.site.files⟩] [] rfl rfl rest

theorem Leads.ask_bind {name : String} {hook : Hook σ β} {trace : Answer β → HookCall}
    {answer : Answer β} {after : Site σ} {f : Except Error β → Course σ α}
    (answered : hook s.site = (answer, after))
    (rest : Leads (f (answer.mapError (·.toError name))) (s.called (trace answer) after)
      fun more said => ways (⟨trace answer, s.site.files⟩ :: more) said) :
    Leads (ask name hook trace >>= f) s ways := by
  rw [Leads, ensures_bind, ensures_ask, answered]
  exact Leads.after [⟨trace answer, s.site.files⟩] [] rfl rfl rest

theorem Leads.send_bind {v : Json} {f : Bool → Course σ α}
    (rest : ∀ took, Leads (f took) (s.offered v) fun calls further => ways calls (v :: further)) :
    Leads (send v >>= f) s ways := by
  rw [Leads, ensures_bind, ensures_send]
  exact Leads.after [] [v] (by simp) (Station.outbox_offered ..) (rest _)

theorem Leads.report_bind {d : Device σ} {release : Release} {status : Status} {remarks : Remarks}
    {f : Bool → Course σ α}
    (rest : ∀ took, Leads (f took) (s.reported d release status remarks) fun calls further =>
      ways calls (Report.status d.profile.handler release status remarks :: further)) :
    Leads (report d release status remarks >>= f) s ways := by
  rw [Leads, ensures_bind, ensures_report]
  exact Leads.after [] [_] (by simp) (Station.outbox_reported ..) (rest _)

theorem Leads.progress_bind {release : Release} {stage : Stage} {percent : Nat}
    {indeterminate : Bool} {f : Unit → Course σ α} (inRange : percent ≤ 100)
    (rest : Leads (f ()) (s.offered (Report.progress release stage percent indeterminate))
      fun calls further =>
        ways calls (Report.progress release stage percent indeterminate :: further)) :
    Leads (progress release stage percent indeterminate >>= f) s ways := by
  rw [Leads, ensures_bind, ensures_progress _ _ _ _ _ _ inRange]
  exact Leads.after [] [_] (by simp) (Station.outbox_offered ..) rest

end Leads

end Course
end OtaAgent
