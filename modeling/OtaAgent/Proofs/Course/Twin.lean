import OtaAgent.Proofs.Course.Coupled

set_option autoImplicit false

namespace OtaAgent

variable {σ α β : Type}

/-- What counts of an answer to a transfer: a hook that gives none has answered one. -/
def Answer.transferred : Answer Transferred → Transferred
  | .ok outcome => if outcome.status = 1 then ⟨1, none⟩ else outcome
  | .error _ => ⟨1, none⟩

/-- What counts of an answer to staging: a hook that gives none has failed. -/
def Answer.prepared : Answer Prepared → Prepared
  | .ok outcome => if outcome.status = .failed then ⟨.failed, none⟩ else outcome
  | .error _ => ⟨.failed, none⟩

/-- What counts of an install of `u`. A hook that gives no answer has failed, and then it does not
count what it made of the update. -/
def Installed.counted (u : Update) (installed : Installed) : Installed :=
  if installed.status = .failed then ⟨.ok .failed, u⟩ else installed

/-- The call with what counts of its answer. That an install has been recorded or told of counts
the same as that it has not. -/
def HookCall.counted : HookCall → HookCall
  | .confirmDownload release answer => .confirmDownload release (.ok answer.decision)
  | .transferFile u answer => .transferFile u (.ok answer.transferred)
  | .prepareInstall u answer => .prepareInstall u (.ok answer.prepared)
  | .preInstall u answer => .preInstall u (.ok answer.status)
  | .install u installed => .install u (installed.counted u)
  | .setVersion r _ => .setVersion r (.ok ())
  | .postInstall package _ => .postInstall package (.ok ())
  | call => call

def Call.counted (call : Call) : Call := { call with hook := call.hook.counted }

/-- The same, with what counts of the result. -/
def Deed.counting (count : α → β) (hook : Deed σ α) : Deed σ β :=
  fun site => (count (hook site).1, (hook site).2)

def Hook.counting (count : Answer α → α) (hook : Hook σ α) : Hook σ α :=
  Deed.counting (fun answer => .ok (count answer)) hook

namespace Station

/-- The stations are the same but for the log and the way in which hooks have failed. -/
structure Like (s twin : Station σ) : Prop where
  site : s.site = twin.site
  outbox : s.outbox = twin.outbox
  calls : s.calls.map Call.counted = twin.calls.map Call.counted
  phase : s.phase = twin.phase
  staged : s.staged = twin.staged
  awaited : s.awaited = twin.awaited

variable {s twin last : Station σ}

theorem Like.refl (s : Station σ) : s.Like s := ⟨rfl, rfl, rfl, rfl, rfl, rfl⟩

theorem Like.symm (like : s.Like twin) : twin.Like s :=
  ⟨like.site.symm, like.outbox.symm, like.calls.symm, like.phase.symm, like.staged.symm,
    like.awaited.symm⟩

theorem Like.trans (first : s.Like twin) (second : twin.Like last) : s.Like last :=
  ⟨first.site.trans second.site, first.outbox.trans second.outbox, first.calls.trans second.calls,
    first.phase.trans second.phase, first.staged.trans second.staged,
    first.awaited.trans second.awaited⟩

theorem Like.noted (like : s.Like twin) (e : LogEntry) : (s.noted e).Like twin :=
  ⟨like.site, like.outbox, like.calls, like.phase, like.staged, like.awaited⟩

theorem Like.noted_both (like : s.Like twin) (e other : LogEntry) :
    (s.noted e).Like (twin.noted other) :=
  (like.noted e).trans ((Like.refl twin).noted other).symm

theorem like_congruence : Congruence (Like (σ := σ)) where
  site like := like.site
  standing like := by rw [standing, standing, like.phase, like.staged, like.awaited]
  noted like e := like.noted_both e e
  offered like v :=
    offered_of_outbox like.outbox (fun _ => { like with outbox := rfl })
      (fun like e => like.noted_both e e) v
  called {s twin} like hook _ site := { like with
    site := rfl
    calls := by
      rw [calls_called, calls_called, List.map_append, List.map_append, like.calls, like.site] }
  changed like site := { like with site := rfl }
  movedTo like t := { like with phase := rfl, staged := rfl, awaited := rfl }

end Station

namespace Course

/-- From stations that are alike, both stretches come to the same answer or the same error, and to
stations that are alike. -/
def Twin (c twin : Course σ α) : Prop := ∀ s s' : Station σ, s.Like s' →
  (runOn c s).1 = (runOn twin s').1 ∧ (runOn c s).2.Like (runOn twin s').2

section Rules

variable {c twin last : Course σ α}

theorem Twin.symm (same : Twin c twin) : Twin twin c := by
  intro s s' like
  obtain ⟨answers, stations⟩ := same s' s like.symm
  exact ⟨answers.symm, stations.symm⟩

theorem Twin.trans (first : Twin c twin) (second : Twin twin last) : Twin c last := by
  intro s s' like
  obtain ⟨answers, stations⟩ := first s s (.refl s)
  obtain ⟨further, others⟩ := second s s' like
  exact ⟨answers.trans further, stations.trans others⟩

theorem twin_pure (a : α) : Twin (σ := σ) (pure a) (pure a) := fun _ _ like => ⟨rfl, like⟩

theorem Twin.bind {f g : α → Course σ β} (first : Twin c twin) (rest : ∀ a, Twin (f a) (g a)) :
    Twin (c >>= f) (twin >>= g) :=
  Couples.bind first rest

theorem Twin.note_bind {level : Level} {code message : String} {f : Unit → Course σ α}
    (rest : Twin (f ()) twin) : Twin (note level code message >>= f) twin :=
  fun s s' like => rest (s.noted ⟨level, code, message⟩) s' (like.noted _)

theorem twin_modify {f : Station σ → Station σ}
    (keeps : ∀ s s' : Station σ, s.Like s' → (f s).Like (f s')) :
    Twin (modify f : Course σ Unit) (modify f) :=
  fun s s' like => ⟨rfl, keeps s s' like⟩

theorem twin_note (level : Level) (code message other : String) :
    Twin (σ := σ) (note level code message) (note level code other) :=
  fun _ _ like => ⟨rfl, like.noted_both _ _⟩

theorem twin_send (v : Json) : Twin (σ := σ) (send v) (send v) := by
  intro s s' like
  rw [runOn_send, runOn_send, like.outbox]
  exact ⟨rfl, Station.like_congruence.offered like v⟩

theorem twin_files : Twin (σ := σ) files files := couples_files Station.like_congruence

theorem twin_perform (job : FileJob α) : Twin (σ := σ) (perform job) (perform job) :=
  couples_perform Station.like_congruence job

theorem twin_progress (release : Release) (stage : Stage) (percent : Nat) (indeterminate : Bool) :
    Twin (σ := σ) (progress release stage percent indeterminate)
      (progress release stage percent indeterminate) :=
  couples_progress Station.like_congruence release stage percent indeterminate

theorem twin_enter (target : Phase) : Twin (σ := σ) (enter target) (enter target) :=
  couples_enter Station.like_congruence target

theorem Twin.call_bind {hook : Deed σ α} {count : α → α} {trace : α → HookCall}
    {f g : α → Course σ β}
    (counted : ∀ result, (trace result).counted = (trace (count result)).counted)
    (rest : ∀ result, Twin (f result) (g (count result))) :
    Twin (call hook trace >>= f) (call (hook.counting count) trace >>= g) := by
  intro s s' like
  rw [runOn_bind, runOn_bind, runOn_call, runOn_call, Deed.counting, like.site]
  refine rest (hook s'.site).1 _ _ { like with site := rfl, calls := ?_ }
  rw [Station.calls_called, Station.calls_called, List.map_append, List.map_append, like.calls,
    like.site]
  simp only [List.map_cons, List.map_nil, Call.counted]
  rw [counted]

theorem ask_bind_eq (name : String) (hook : Hook σ α) (trace : Answer α → HookCall)
    (f : Except Error α → Course σ β) : ask name hook trace >>= f =
      call hook trace >>= fun answer => f (answer.mapError (·.toError name)) := by
  simp [ask]

theorem Twin.ask_bind {name : String} {hook : Hook σ α} {count : Answer α → α}
    {trace : Answer α → HookCall} {f g : Except Error α → Course σ β}
    (counted : ∀ answer, (trace answer).counted = (trace (.ok (count answer))).counted)
    (rest : ∀ answer counts, count answer = counts →
      Twin (f (answer.mapError (·.toError name))) (g (.ok counts))) :
    Twin (ask name hook trace >>= f) (ask name (hook.counting count) trace >>= g) := by
  rw [ask_bind_eq, ask_bind_eq]
  exact .call_bind counted fun answer => rest answer _ rfl

end Rules

end Course
end OtaAgent
