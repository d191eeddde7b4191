import OtaAgent.Proofs.Files.Content
import OtaAgent.Proofs.Files.Job

set_option autoImplicit false

namespace OtaAgent.Files.Job

variable {ε α β : Type} {cwd : Location} {places : Location → Prop}

theorem runOn_tryCatch (job : Job ε α) (handler : ε → Job ε α) (t : Tree) :
    runOn (tryCatch job handler) t = match runOn job t with
      | (.ok a, next) => (.ok a, next)
      | (.error e, next) => runOn (handler e) next := by
  unfold runOn ExceptT.run
  simp only [tryCatch, tryCatchThe, MonadExceptOf.tryCatch, ExceptT.tryCatch, ExceptT.mk]
  rw [Script.run_bind]
  cases Script.run job t with
  | mk result next => cases result <;> rfl

/-- A job that succeeds has taken every step. -/
theorem runOn_bind_ok {job : Job ε α} {f : α → Job ε β} {b : β} {t last : Tree}
    (ran : runOn (job >>= f) t = (.ok b, last)) :
    ∃ a next, runOn job t = (.ok a, next) ∧ runOn (f a) next = (.ok b, last) := by
  rw [runOn_bind] at ran
  split at ran
  · rename_i a next first
    exact ⟨a, next, first, ran⟩
  · cases ran

theorem runOn_bind_iff {job : Job ε α} {f : α → Job ε β} {b : β} {t last : Tree} :
    runOn (job >>= f) t = (.ok b, last) ↔
      ∃ a next, runOn job t = (.ok a, next) ∧ runOn (f a) next = (.ok b, last) := by
  refine ⟨runOn_bind_ok, ?_⟩
  rintro ⟨a, next, first, rest⟩
  rw [runOn_bind, first]
  exact rest

/-- A job that gives up does so in one of its steps. -/
theorem runOn_bind_error {job : Job ε α} {f : α → Job ε β} {e : ε} {t last : Tree}
    (ran : runOn (job >>= f) t = (.error e, last)) :
    runOn job t = (.error e, last) ∨
      ∃ a next, runOn job t = (.ok a, next) ∧ runOn (f a) next = (.error e, last) := by
  rw [runOn_bind] at ran
  split at ran
  · rename_i a next first
    exact .inr ⟨a, next, first, ran⟩
  · rename_i reason next first
    cases ran
    exact .inl first

theorem runOn_attempt_error {op : Op} {fault : IoFault → ε} {e : ε} {t next : Tree}
    (ran : runOn (attempt op fault) t = (.error e, next)) : ∃ cause, e = fault cause := by
  rw [runOn_attempt] at ran
  cases applied : (op.apply t).1 with
  | ok held =>
    rw [applied] at ran
    cases ran
  | error cause =>
    rw [applied] at ran
    cases ran
    exact ⟨cause, rfl⟩

theorem runOn_attempt_ok {op : Op} {fault : IoFault → ε} {bytes : Bytes} {t next : Tree}
    (ran : runOn (attempt op fault) t = (.ok bytes, next)) : op.apply t = (.ok bytes, next) := by
  rw [runOn_attempt] at ran
  cases applied : op.apply t with
  | mk reply after =>
    rw [applied] at ran
    cases reply with
    | ok held =>
      cases ran
      rfl
    | error e => cases ran

/-- An operation that changes the tree only if it succeeds has made the tree that is left. -/
theorem settle_ok {t next : Tree} {result : Except IoFault Tree} {bytes : Bytes}
    (settled : settle t result = (.ok bytes, next)) : result = .ok next := by
  cases result with
  | ok made =>
    cases settled
    rfl
  | error e => cases settled

/-- Run from the working directory `cwd`, the job changes no files but those at `places`. -/
def Within (cwd : Location) (places : Location → Prop) (job : Job ε α) : Prop :=
  ∀ t : Tree, t.cwd = cwd → t.Keeps (runOn job t).2 places

theorem Within.keeps {job : Job ε α} {t next : Tree} {result : Except ε α}
    (within : Within cwd places job) (here : t.cwd = cwd) (ran : runOn job t = (result, next)) :
    t.Keeps next places := by
  have kept := within t here
  rwa [ran] at kept

theorem Looks.within {job : Job ε α} (looks : Looks job) : Within cwd places job := by
  intro t here
  rw [looks t]
  exact .refl t places

theorem Within.bind {job : Job ε α} {f : α → Job ε β} (first : Within cwd places job)
    (rest : ∀ a, Within cwd places (f a)) : Within cwd places (job >>= f) := by
  intro t here
  have begun := first t here
  rw [runOn_bind]
  split
  · rename_i a next ran
    rw [ran] at begun
    exact begun.trans (rest a next (begun.cwd.trans here))
  · rename_i e next ran
    rw [ran] at begun
    exact begun

theorem within_attempt {op : Op} {fault : IoFault → ε}
    (inside : ∀ loc, Op.Touches cwd op loc → places loc) :
    Within cwd places (attempt op fault) := by
  intro t here
  rw [runOn_attempt]
  subst here
  exact (op.keeps t).imp inside

/-- The job leaves a tree of which `holds` is true if it finds one. -/
def Maintains (holds : Tree → Prop) (job : Job ε α) : Prop := ∀ t, holds t → holds (runOn job t).2

theorem Looks.maintains {holds : Tree → Prop} {job : Job ε α} (looks : Looks job) :
    Maintains holds job := by
  intro t held
  rwa [looks t]

theorem Maintains.bind {holds : Tree → Prop} {job : Job ε α} {f : α → Job ε β}
    (first : Maintains holds job) (rest : ∀ a, Maintains holds (f a)) :
    Maintains holds (job >>= f) := by
  intro t held
  have begun := first t held
  rw [runOn_bind]
  split
  · rename_i a next ran
    rw [ran] at begun
    exact rest a next begun
  · rename_i e next ran
    rwa [ran] at begun

/-- What is altered at `places` and `ways` only still is after an operation that alters no more. -/
theorem maintains_alters {t : Tree} {ways : Location → Prop} {op : Op} {fault : IoFault → ε}
    (inside : ∀ loc, op.Touches t.cwd loc → places loc)
    (onWay : ∀ loc, op.Makes t.cwd loc → ways loc) :
    Maintains (t.Alters · places ways) (attempt op fault) := by
  intro next altered
  rw [runOn_attempt]
  have further := op.alters next
  rw [altered.cwd] at further
  exact altered.trans (further.imp inside onWay)

/-- Run from the working directory `cwd`, the job changes no files but those at `places` if it gives
up. -/
def FailsWithin (cwd : Location) (places : Location → Prop) (job : Job ε α) : Prop :=
  ∀ (t : Tree) (e : ε) (next : Tree), t.cwd = cwd → runOn job t = (.error e, next) →
    t.Keeps next places

theorem Within.failsWithin {job : Job ε α} (within : Within cwd places job) :
    FailsWithin cwd places job := by
  intro t e next here ran
  exact within.keeps here ran

theorem FailsWithin.bind {job : Job ε α} {f : α → Job ε β} (first : Within cwd places job)
    (rest : ∀ a, FailsWithin cwd places (f a)) : FailsWithin cwd places (job >>= f) := by
  intro t e last here ran
  have begun := first t here
  rw [runOn_bind] at ran
  split at ran
  · rename_i a next done
    rw [done] at begun
    exact begun.trans (rest a next e last (begun.cwd.trans here) ran)
  · rename_i reason next given
    cases ran
    rwa [given] at begun

/-- An operation that settles changes nothing if it is refused. -/
theorem failsWithin_attempt {op : Op} {fault : IoFault → ε}
    (settles : ∀ t, ∃ result, op.apply t = settle t result) :
    FailsWithin cwd places (attempt op fault) := by
  intro t e next here ran
  obtain ⟨result, applied⟩ := settles t
  rw [runOn_attempt, applied] at ran
  cases result with
  | ok changed => cases ran
  | error reason =>
    cases ran
    exact .refl t places

/-- The job leaves a tree of which `holds` is true if it finds one and gives up. -/
def FailsMaintaining (holds : Tree → Prop) (job : Job ε α) : Prop :=
  ∀ (t : Tree) (e : ε) (next : Tree), holds t → runOn job t = (.error e, next) → holds next

theorem Maintains.failsMaintaining {holds : Tree → Prop} {job : Job ε α}
    (maintains : Maintains holds job) : FailsMaintaining holds job := by
  intro t e next held ran
  have kept := maintains t held
  rwa [ran] at kept

theorem FailsMaintaining.bind {holds : Tree → Prop} {job : Job ε α} {f : α → Job ε β}
    (first : Maintains holds job) (rest : ∀ a, FailsMaintaining holds (f a)) :
    FailsMaintaining holds (job >>= f) := by
  intro t e last held ran
  have begun := first t held
  rw [runOn_bind] at ran
  split at ran
  · rename_i a next done
    rw [done] at begun
    exact rest a next e last begun ran
  · rename_i reason next given
    cases ran
    rwa [given] at begun

theorem FailsMaintaining.bind_pure {holds : Tree → Prop} {job : Job ε α} {f : α → β}
    (fails : FailsMaintaining holds job) : FailsMaintaining holds (do return f (← job)) := by
  intro t e next held ran
  rw [runOn_bind] at ran
  split at ran
  · cases ran
  · rename_i reason last given
    cases ran
    exact fails t e next held given

theorem failsMaintaining_attempt {holds : Tree → Prop} {op : Op} {fault : IoFault → ε}
    (settles : ∀ t, ∃ result, op.apply t = settle t result) :
    FailsMaintaining holds (attempt op fault) := by
  intro t e next held ran
  obtain ⟨result, applied⟩ := settles t
  rw [runOn_attempt, applied] at ran
  cases result with
  | ok changed => cases ran
  | error reason =>
    cases ran
    exact held

/-- What is answered makes no difference to how a job gives up. -/
theorem FailsWithin.bind_pure {job : Job ε α} {f : α → β} (fails : FailsWithin cwd places job) :
    FailsWithin cwd places (do return f (← job)) := by
  intro t e next here ran
  rw [runOn_bind] at ran
  split at ran
  · cases ran
  · rename_i reason last given
    cases ran
    exact fails t e next here given

end OtaAgent.Files.Job
