import OtaAgent.Archive

set_option autoImplicit false

namespace OtaAgent

theorem mapError_ok {ε δ α : Type} (f : ε → δ) (a : α) :
    (Except.ok a : Except ε α).mapError f = .ok a := rfl

theorem mapError_error {ε δ α : Type} (f : ε → δ) (e : ε) :
    (Except.error e : Except ε α).mapError f = .error (f e) := rfl

/-- Both are errors that `fault` relates, or both are values that `agree` relates. -/
inductive Parallel {ε δ α β : Type} (fault : ε → δ → Prop) (agree : α → β → Prop) :
    Except ε α → Except δ β → Prop
  | ok {a : α} {b : β} (values : agree a b) : Parallel fault agree (.ok a) (.ok b)
  | error {e : ε} {e' : δ} (faults : fault e e') : Parallel fault agree (.error e) (.error e')

namespace Parallel

variable {ε δ ε' δ' α β α' β' : Type} {fault : ε → δ → Prop} {fault' : ε' → δ' → Prop}
  {agree : α → β → Prop} {agree' : α' → β' → Prop} {x : Except ε α} {y : Except δ β}

theorem eq {x y : Except ε α} (both : Parallel Eq Eq x y) : x = y := by
  cases both with
  | ok same => rw [same]
  | error same => rw [same]

theorem imp {wider : α → β → Prop} (both : Parallel fault agree x y)
    (values : ∀ a b, agree a b → wider a b) : Parallel fault wider x y := by
  cases both with
  | ok same => exact .ok (values _ _ same)
  | error faults => exact .error faults

theorem map {f : α → α'} {g : β → β'} (both : Parallel fault agree x y)
    (values : ∀ a b, agree a b → agree' (f a) (g b)) :
    Parallel fault agree' (x.map f) (y.map g) := by
  cases both with
  | ok same => exact .ok (values _ _ same)
  | error faults => exact .error faults

theorem mapError {f : ε → ε'} {g : δ → δ'} (both : Parallel fault agree x y)
    (faults : ∀ e e', fault e e' → fault' (f e) (g e')) :
    Parallel fault' agree (x.mapError f) (y.mapError g) := by
  cases both with
  | ok same => exact .ok same
  | error faults' => exact .error (faults _ _ faults')

theorem bind {f : α → Except ε α'} {g : β → Except δ β'} (both : Parallel fault agree x y)
    (rest : ∀ a b, agree a b → Parallel fault agree' (f a) (g b)) :
    Parallel fault agree' (x >>= f) (y >>= g) := by
  cases both with
  | ok same => exact rest _ _ same
  | error faults => exact .error faults

end Parallel

namespace Files

namespace Job

variable {ε α β : Type}

@[simp] theorem runOn_pure (a : α) (t : Tree) : runOn (pure a : Job ε α) t = (.ok a, t) := rfl

@[simp] theorem runOn_throw (e : ε) (t : Tree) : runOn (throw e : Job ε α) t = (.error e, t) := rfl

theorem runOn_bind (job : Job ε α) (f : α → Job ε β) (t : Tree) :
    runOn (job >>= f) t = match runOn job t with
      | (.ok a, next) => runOn (f a) next
      | (.error e, next) => (.error e, next) := by
  unfold runOn ExceptT.run
  simp only [bind, ExceptT.bind, ExceptT.mk]
  rw [show (Script.bind job (ExceptT.bindCont f)).run t = _ from Script.run_bind job _ t]
  cases Script.run job t with
  | mk result next => cases result <;> rfl

theorem bind_assoc {γ : Type} (job : Job ε α) (f : α → Job ε β) (g : β → Job ε γ) :
    job >>= f >>= g = job >>= fun a => f a >>= g := by
  have scripts {α β γ : Type} (s : Script α) (f : α → Script β) (g : β → Script γ) :
      (s.bind f).bind g = s.bind fun a => (f a).bind g := by
    induction s with
    | done a => rfl
    | call op next ih => exact congrArg (Script.call op) (funext ih)
  refine (scripts job _ _).trans (congrArg (Script.bind job) (funext fun result => ?_))
  cases result <;> rfl

@[simp] theorem runOn_ask (op : Op) (t : Tree) :
    runOn (ask op : Job ε Reply) t = (.ok (op.apply t).1, (op.apply t).2) := rfl

@[simp] theorem runOn_attempt (op : Op) (fault : IoFault → ε) (t : Tree) :
    runOn (attempt op fault) t = ((op.apply t).1.mapError fault, (op.apply t).2) := by
  have asked : (Script.ask op).run t = op.apply t := rfl
  unfold attempt runOn ExceptT.run ExceptT.mk
  rw [Script.run_bind, asked]
  cases (op.apply t).1 <;> rfl

/-- The job changes nothing, whatever it finds. -/
def Looks (job : Job ε α) : Prop := ∀ t, (runOn job t).2 = t

theorem Looks.pure (a : α) : Looks (pure a : Job ε α) := fun _ => rfl

theorem Looks.throw (e : ε) : Looks (throw e : Job ε α) := fun _ => rfl

theorem Looks.bind {job : Job ε α} {f : α → Job ε β} (first : Looks job)
    (rest : ∀ a, Looks (f a)) : Looks (job >>= f) := by
  intro t
  have same := first t
  rw [runOn_bind]
  split
  · rename_i a next ran
    rw [ran] at same
    rw [rest a next, ← same]
  · rename_i e next ran
    rw [ran] at same
    exact same

theorem Looks.attempt {op : Op} (fault : IoFault → ε) (looks : ∀ t, (op.apply t).2 = t) :
    Looks (attempt op fault) := by
  intro t
  rw [runOn_attempt]
  exact looks t

theorem looks_fileDigest (p : Path) : Looks (fileDigest p) :=
  .bind (.attempt _ fun _ => rfl) fun _ => .bind (.attempt _ fun _ => rfl) fun _ => .pure _

theorem read_of_fileDigest {p : Path} {t : Tree} {digest : Digest}
    (found : ((fileDigest p).runOn t).1 = .ok digest) :
    ∃ content, t.read p = .ok content ∧ digest = .ofContent content := by
  unfold fileDigest at found
  rw [runOn_bind, runOn_attempt] at found
  cases opened : (t.stat p).map fun _ => ([] : Bytes) with
  | error e => simp [Op.apply, opened, mapError_error] at found
  | ok _ =>
    simp only [Op.apply, opened, mapError_ok, runOn_bind, runOn_attempt] at found
    cases held : t.read p with
    | error e => simp [held, mapError_error] at found
    | ok content =>
      simp only [held, mapError_ok, runOn_pure, Except.ok.injEq] at found
      exact ⟨content, rfl, found.symm⟩

end Job
end Files
end OtaAgent
