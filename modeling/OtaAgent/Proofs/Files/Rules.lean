import OtaAgent.Proofs.Files.Interrupted

set_option autoImplicit false

namespace OtaAgent.Files.Job

variable {ε : Type}

/-- `goes` is said of a job of which it is said part by part, and so is `ends` if it is said of the
last part and `goes` of the others. Both are said of jobs that change nothing. -/
structure Rules (goes ends : (α : Type) → Job ε α → Prop) : Prop where
  still {α : Type} {job : Job ε α} (still : Still job) : goes α job
  bind {α β : Type} {job : Job ε α} {f : α → Job ε β} (first : goes α job)
    (rest : ∀ a, goes β (f a)) : goes β (job >>= f)
  last {α : Type} {job : Job ε α} (done : goes α job) : ends α job
  bindLast {α β : Type} {job : Job ε α} {f : α → Job ε β} (first : goes α job)
    (rest : ∀ a, ends β (f a)) : ends β (job >>= f)
  bindPure {α β : Type} {job : Job ε α} {f : α → β} (done : ends α job) :
    ends β (do return f (← job))

variable {goes ends : (α : Type) → Job ε α → Prop}

theorem Rules.of_bind (still : ∀ {α : Type} {job : Job ε α}, Still job → goes α job)
    (bind : ∀ {α β : Type} {job : Job ε α} {f : α → Job ε β},
      goes α job → (∀ a, goes β (f a)) → goes β (job >>= f)) : Rules goes goes where
  still := still
  bind := bind
  last := id
  bindLast := bind
  bindPure done := bind done fun _ => still (.pure _)

/-- Of a last part no less has to be said. -/
theorem Rules.whole (rules : Rules goes ends) : Rules goes goes := .of_bind rules.still rules.bind

/-- The operation is one of which it is said, whatever is reported of its refusal. -/
def Attempts (said : (α : Type) → Job ε α → Prop) (op : Op) : Prop :=
  ∀ fault, said Bytes (attempt op fault)

section Instances

variable {cwd : Location} {places : Location → Prop} {holds : Tree → Prop}

theorem rules_builds : Rules (fun _ (job : Job ε _) => Builds job) fun _ => Builds :=
  .of_bind (fun still => still.looks.builds) .bind

theorem rules_maintains : Rules (fun _ (job : Job ε _) => Maintains holds job)
    fun _ => Maintains holds :=
  .of_bind (fun still => still.looks.maintains) .bind

theorem rules_within : Rules (fun _ (job : Job ε _) => Within cwd places job)
    fun _ => Within cwd places :=
  .of_bind (fun still => still.looks.within) .bind

theorem rules_failsWithin : Rules (fun _ (job : Job ε _) => Within cwd places job)
    fun _ => FailsWithin cwd places where
  still still := still.looks.within
  bind := .bind
  last := Within.failsWithin
  bindLast := .bind
  bindPure := .bind_pure

theorem rules_failsMaintaining : Rules (fun _ (job : Job ε _) => Maintains holds job)
    fun _ => FailsMaintaining holds where
  still still := still.looks.maintains
  bind := .bind
  last := Maintains.failsMaintaining
  bindLast := .bind
  bindPure := .bind_pure

theorem rules_throughout : Rules (fun _ (job : Job ε _) => Throughout holds job)
    fun _ => Throughout holds :=
  .of_bind Still.throughout .bind

theorem rules_untilLast : Rules (fun _ (job : Job ε _) => Throughout holds job)
    fun _ => UntilLast holds where
  still := Still.throughout
  bind := .bind
  last := Throughout.untilLast
  bindLast := .bind
  bindPure := .bind_pure

end Instances

end OtaAgent.Files.Job
