import OtaAgent.Proofs.Files.Growing

set_option autoImplicit false

namespace OtaAgent.Files

namespace Tree

/-- Making the first of `paths`, with the ones after it as they are missing, may leave this of a
tree. -/
inductive LeavesAlong : List Path → Tree → Tree → Prop
  | whole (paths : List Path) (t : Tree) : LeavesAlong paths t (makeDirsAlong paths t).2
  | above {p : Path} {up : List Path} {t x : Tree} (named : p.text ≠ "")
      (missing : t.makeDir p = .error .notFound) (earlier : LeavesAlong up t x) :
      LeavesAlong (p :: up) t x

end Tree

/-- The operation may leave this of a tree. What lies in a directory is taken away before the
directory. -/
inductive Op.Leaves : Op → Tree → Tree → Prop
  | before (op : Op) (t : Tree) : Leaves op t t
  | after (op : Op) (t : Tree) : Leaves op t (op.apply t).2
  | making {p : Path} {t x : Tree} (along : Tree.LeavesAlong p.ancestry t x) :
      Leaves (.makeDirs p) t x
  | writing {p : Path} {bytes written : Bytes} {t x : Tree} (part : written <+: bytes)
      (wrote : t.append p written = .ok x) : Leaves (.append p bytes) t x
  | copying {src dst : Path} {held content written : Bytes} {t emptied x : Tree}
      (found : t.read src = .ok held) (created : t.create dst = .ok emptied)
      (read : emptied.read src = .ok content) (part : written <+: content)
      (wrote : emptied.append dst written = .ok x) : Leaves (.copy src dst) t x
  | removing {p : Path} {t : Tree} {gone : Location → Bool}
      (inside : ∀ loc, gone loc = true → p.lead t.cwd <+: loc)
      (emptied : ∀ loc more, gone loc = true → gone (loc ++ more) = true) :
      Leaves (.removeAll p) t (t.without gone)

/-- Cut off on a tree of which `holds` is true, the operation leaves such a tree. -/
def Op.Safe (holds : Tree → Prop) (op : Op) : Prop := ∀ t x, holds t → op.Leaves t x → holds x

/-- The script may leave this of a tree: it is cut off within an operation, or later. -/
inductive Script.Leaves {α : Type} : Script α → Tree → Tree → Prop
  | done (a : α) (t : Tree) : Leaves (.done a) t t
  | within {op : Op} {next : Reply → Script α} {t x : Tree} (left : op.Leaves t x) :
      Leaves (.call op next) t x
  | later {op : Op} {next : Reply → Script α} {t x : Tree}
      (left : Leaves (next (op.apply t).1) (op.apply t).2 x) : Leaves (.call op next) t x

/-- The job may leave this of a tree. -/
def Job.Leaves {ε α : Type} (job : Job ε α) (t x : Tree) : Prop :=
  Script.Leaves (ExceptT.run job) t x

section Operations

variable {op : Op} {t x : Tree} {p : Path} {paths : List Path} {places : Location → Prop}

/-- Directories that are made, wholly or in part, are made where the paths lead. -/
theorem Tree.LeavesAlong.alters (left : Tree.LeavesAlong paths t x) :
    t.Alters x places fun loc => ∃ q ∈ paths, loc = q.lead t.cwd := by
  induction left with
  | whole paths t =>
    exact Tree.alters_makeDirsAlong paths t fun q among _ _ _ _ => ⟨q, among, rfl⟩
  | above named missing earlier ih =>
    exact ih.imp (fun _ => id) fun loc ⟨q, among, there⟩ => ⟨q, List.mem_cons_of_mem _ among, there⟩

theorem Op.Leaves.alters_makeDirs (left : Op.Leaves (.makeDirs p) t x) :
    t.Alters x places fun loc => ∃ q ∈ p.ancestry, loc = q.lead t.cwd := by
  cases left with
  | before => exact .refl t _ _
  | after => exact Tree.alters_makeDirsAlong _ t fun q among _ _ _ _ => ⟨q, among, rfl⟩
  | making along => exact along.alters

theorem Tree.LeavesAlong.keepsDirs (left : Tree.LeavesAlong paths t x) : t.KeepsDirs x := by
  induction left with
  | whole paths t => exact Tree.keepsDirs_makeDirsAlong paths t
  | above named missing earlier ih => exact ih

/-- Cut off, an operation has changed no other files. -/
theorem Op.Leaves.keeps (left : op.Leaves t x) : t.Keeps x (op.Touches t.cwd) := by
  cases left with
  | before => exact .refl t _
  | after => exact op.keeps t
  | making along => exact along.alters.keeps
  | writing part wrote => exact Tree.keeps_append wrote
  | copying found created read part wrote =>
    have first := Tree.keeps_create created
    have second := Tree.keeps_append wrote
    rw [first.cwd] at second
    exact first.trans second
  | removing inside emptied =>
    exact (Tree.alters_without _ : t.Alters _ _ fun _ => False).keeps.imp inside

theorem Op.Leaves.keepsDirs (left : op.Leaves t x) (builds : op.Builds) (sound : t.Sound) :
    t.KeepsDirs x := by
  cases left with
  | before => exact .refl t
  | after => exact op.keepsDirs builds sound
  | making along => exact along.keepsDirs
  | writing part wrote => exact Tree.keepsDirs_append wrote
  | copying found created read part wrote =>
    exact (Tree.keepsDirs_create created).trans (Tree.keepsDirs_append wrote)
  | removing inside emptied => exact builds.elim

theorem Op.Leaves.grows (left : op.Leaves t x) (plain : op.Plain) (sound : t.Sound) :
    t.Grows x places := by
  cases left with
  | before => exact .refl t _
  | after => exact op.grows plain sound
  | making along => exact plain.elim
  | writing part wrote => exact Tree.grows_append wrote
  | copying found created read part wrote =>
    exact (Tree.grows_create created).trans (Tree.grows_append wrote)
  | removing inside emptied => exact plain.elim

end Operations

namespace Script

variable {α β : Type} {t x : Tree}

theorem leaves_done {a : α} : (done a).Leaves t x ↔ x = t := by
  constructor
  · rintro ⟨⟩
    rfl
  · rintro rfl
    exact .done a x

theorem leaves_call {op : Op} {next : Reply → Script α} : (call op next).Leaves t x ↔
    op.Leaves t x ∨ (next (op.apply t).1).Leaves (op.apply t).2 x := by
  constructor
  · rintro (_ | left | left)
    · exact .inl left
    · exact .inr left
  · exact fun left => left.elim .within .later

theorem leaves_start (s : Script α) (t : Tree) : s.Leaves t t := by
  cases s with
  | done a => exact .done a t
  | call op next => exact .within (.before op t)

theorem leaves_run (s : Script α) (t : Tree) : s.Leaves t (s.run t).2 := by
  induction s generalizing t with
  | done a => exact .done a t
  | call op next ih => exact .later (ih _ _)

/-- Two scripts, one after the other, are cut off in the first or in the second. -/
theorem leaves_bind (s : Script α) (f : α → Script β) : (s >>= f).Leaves t x ↔
    s.Leaves t x ∨ (f (s.run t).1).Leaves (s.run t).2 x := by
  show (s.bind f).Leaves t x ↔ _
  induction s generalizing t with
  | done a =>
    refine ⟨.inr, ?_⟩
    rintro (first | later)
    · rw [leaves_done.mp first]
      exact leaves_start (f a) t
    · exact later
  | call op next ih =>
    have rest := ih (op.apply t).1 (t := (op.apply t).2)
    simp only [bind, run, leaves_call, rest, or_assoc]

end Script

namespace Job

variable {ε α β : Type} {op : Op} {t x : Tree}

theorem leaves_runOn (job : Job ε α) (t : Tree) : job.Leaves t (job.runOn t).2 :=
  Script.leaves_run _ t

theorem leaves_pure {a : α} : (pure a : Job ε α).Leaves t x ↔ x = t := Script.leaves_done

theorem leaves_throw {e : ε} : (throw e : Job ε α).Leaves t x ↔ x = t := Script.leaves_done

/-- After an operation that is the last one, nothing more changes. -/
theorem leaves_last {op : Op} {next : Reply → Script α}
    (ends : ∀ reply, ∃ a, next reply = .done a) :
    (Script.call op next).Leaves t x ↔ op.Leaves t x := by
  obtain ⟨a, last⟩ := ends (op.apply t).1
  rw [Script.leaves_call, last, Script.leaves_done]
  exact ⟨fun left => left.elim id fun same => same ▸ .after op t, .inl⟩

theorem leaves_ask : (ask op : Job ε Reply).Leaves t x ↔ op.Leaves t x :=
  leaves_last fun reply => ⟨.ok reply, rfl⟩

theorem leaves_attempt {fault : IoFault → ε} :
    (attempt op fault).Leaves t x ↔ op.Leaves t x := by
  refine leaves_last fun reply => ?_
  cases reply with
  | ok bytes => exact ⟨.ok bytes, rfl⟩
  | error e => exact ⟨.error (fault e), rfl⟩

theorem leaves_bind {job : Job ε α} {f : α → Job ε β} : (job >>= f).Leaves t x ↔
    job.Leaves t x ∨ ∃ a next, job.runOn t = (.ok a, next) ∧ (f a).Leaves next x := by
  have last := leaves_runOn job t
  unfold Leaves runOn ExceptT.run at *
  simp only [bind, ExceptT.bind, ExceptT.mk]
  rw [show Script.Leaves (Script.bind job (ExceptT.bindCont f)) t x ↔ _ from
    Script.leaves_bind job _]
  cases ran : Script.run job t with
  | mk result next =>
    rw [ran] at last
    cases result with
    | ok a =>
      refine or_congr_right ⟨fun later => ⟨a, next, rfl, later⟩, ?_⟩
      rintro ⟨_, _, same, later⟩
      cases same
      exact later
    | error e =>
      have stopped : (ExceptT.bindCont f (.error e)).Leaves next x ↔ x = next :=
        Script.leaves_done
      simp only [stopped, Prod.mk.injEq, reduceCtorEq, false_and, exists_false, or_false]
      exact ⟨fun left => left.elim id fun same => same ▸ last, .inl⟩

theorem Leaves.first {job : Job ε α} {f : α → Job ε β} (left : job.Leaves t x) :
    (job >>= f).Leaves t x := leaves_bind.mpr (.inl left)

theorem Leaves.later {job : Job ε α} {f : α → Job ε β} {a : α}
    (granted : (job.runOn t).1.toOption = some a) (left : (f a).Leaves (job.runOn t).2 x) :
    (job >>= f).Leaves t x :=
  leaves_bind.mpr (.inr ⟨a, _, Prod.ext (eq_ok_of_toOption granted) rfl, left⟩)

/-- A job whose errors are handled is cut off in itself or in the handling. -/
theorem leaves_tryCatch {job : Job ε α} {handler : ε → Job ε α}
    (left : (tryCatch job handler).Leaves t x) :
    job.Leaves t x ∨ ∃ e next, job.runOn t = (.error e, next) ∧ (handler e).Leaves next x := by
  have last := leaves_runOn job t
  unfold Leaves runOn ExceptT.run at *
  simp only [tryCatch, tryCatchThe, MonadExceptOf.tryCatch, ExceptT.tryCatch, ExceptT.mk] at left
  rw [Script.leaves_bind] at left
  rcases left with first | later
  · exact .inl first
  · cases ran : Script.run job t with
    | mk result next =>
      rw [ran] at last later
      cases result with
      | ok a =>
        obtain rfl : x = next := Script.leaves_done.mp later
        exact .inl last
      | error e => exact .inr ⟨e, next, rfl, later⟩

/-- Cut off anywhere, the job leaves everything as it was. -/
def Still (job : Job ε α) : Prop := ∀ t x, job.Leaves t x → x = t

theorem Still.looks {job : Job ε α} (still : Still job) : Looks job :=
  fun t => still t _ (leaves_runOn job t)

theorem Still.pure (a : α) : Still (pure a : Job ε α) := fun _ _ => leaves_pure.mp

theorem Still.throw (e : ε) : Still (throw e : Job ε α) := fun _ _ => leaves_throw.mp

theorem Still.bind {job : Job ε α} {f : α → Job ε β} (first : Still job)
    (rest : ∀ a, Still (f a)) : Still (job >>= f) := by
  intro t x left
  rcases leaves_bind.mp left with left | ⟨a, next, ran, later⟩
  · exact first t x left
  · obtain rfl : next = t := by simpa [ran] using first.looks t
    exact rest a next x later

theorem Still.tryCatch {job : Job ε α} {handler : ε → Job ε α} (first : Still job)
    (handles : ∀ e, Still (handler e)) : Still (tryCatch job handler) := by
  intro t x left
  rcases leaves_tryCatch left with left | ⟨e, next, ran, later⟩
  · exact first t x left
  · obtain rfl : next = t := by simpa [ran] using first.looks t
    exact handles e next x later

theorem still_ask_read (p : Path) : Still (ask (.read p) : Job ε Reply) := by
  intro t x left
  cases leaves_ask.mp left <;> rfl

/-- Begun on a tree of which `holds` is true, the job leaves such a tree wherever it is cut off. -/
def Throughout (holds : Tree → Prop) (job : Job ε α) : Prop :=
  ∀ t x, holds t → job.Leaves t x → holds x

section Throughout

variable {holds : Tree → Prop}

theorem Throughout.maintains {job : Job ε α} (always : Throughout holds job) :
    Maintains holds job := fun t held => always t _ held (leaves_runOn job t)

theorem Still.throughout {job : Job ε α} (still : Still job) : Throughout holds job := by
  intro t x held left
  rwa [still t x left]

theorem Throughout.bind {job : Job ε α} {f : α → Job ε β} (first : Throughout holds job)
    (rest : ∀ a, Throughout holds (f a)) : Throughout holds (job >>= f) := by
  intro t x held left
  rcases leaves_bind.mp left with left | ⟨a, next, ran, later⟩
  · exact first t x held left
  · have done := first.maintains t held
    rw [ran] at done
    exact rest a next x done later

theorem throughout_attempt {fault : IoFault → ε} (safe : op.Safe holds) :
    Throughout holds (attempt op fault) := fun t x held left =>
  safe t x held (leaves_attempt.mp left)

/-- Begun on a tree of which `holds` is true, the job leaves such a tree until it has done its
last step. -/
def UntilLast (holds : Tree → Prop) (job : Job ε α) : Prop :=
  ∀ t x, holds t → job.Leaves t x → holds x ∨ x = (job.runOn t).2

theorem Throughout.untilLast {job : Job ε α} (always : Throughout holds job) :
    UntilLast holds job := fun t x held left => .inl (always t x held left)

theorem UntilLast.bind {job : Job ε α} {f : α → Job ε β} (first : Throughout holds job)
    (rest : ∀ a, UntilLast holds (f a)) : UntilLast holds (job >>= f) := by
  intro t x held left
  rcases leaves_bind.mp left with left | ⟨a, next, ran, later⟩
  · exact .inl (first t x held left)
  · have done := first.maintains t held
    rw [ran] at done
    rw [runOn_bind, ran]
    exact rest a next x done later

/-- What is answered makes no difference to what a job leaves. -/
theorem UntilLast.bind_pure {job : Job ε α} {f : α → β} (until_ : UntilLast holds job) :
    UntilLast holds (do return f (← job)) := by
  intro t x held left
  have unmoved : (runOn (do return f (← job)) t).2 = (runOn job t).2 := by
    rw [runOn_bind]
    split
    · rename_i ran
      rw [ran]
      rfl
    · rename_i ran
      rw [ran]
  rw [unmoved]
  rcases leaves_bind.mp left with left | ⟨a, next, ran, later⟩
  · exact until_ t x held left
  · right
    rw [ran]
    exact leaves_pure.mp later

/-- Moving a file is one step. -/
theorem untilLast_rename {src dst : Path} {fault : IoFault → ε} :
    UntilLast holds (attempt (.rename src dst) fault) := by
  intro t x held left
  rw [runOn_attempt]
  cases leaves_attempt.mp left with
  | before => exact .inl held
  | after => exact .inr rfl

end Throughout

end Job

namespace Tree

/-- `next` has all directories of `t`, and its files but for those at `places`. -/
structure KeepsAll (t next : Tree) (places : Location → Prop) : Prop
    extends t.KeepsDirs next, t.Keeps next places

theorem KeepsAll.refl (t : Tree) (places : Location → Prop) : t.KeepsAll t places :=
  ⟨.refl t, fun _ _ => rfl⟩

end Tree

theorem Op.safe_keepsAll {t : Tree} {places : Location → Prop} {op : Op} (builds : op.Builds)
    (sound : t.Sound) (inside : ∀ loc, op.Touches t.cwd loc → places loc) :
    op.Safe (t.KeepsAll · places) := by
  intro middle x kept left
  have dirs := kept.toKeepsDirs.trans (left.keepsDirs builds (sound.of_keepsDirs kept.toKeepsDirs))
  have files := left.keeps
  rw [kept.toKeepsDirs.cwd] at files
  exact ⟨dirs, (kept.toKeeps.trans (files.imp inside)).content⟩

end OtaAgent.Files
