import OtaAgent.Proofs.Files.Interrupted

set_option autoImplicit false

namespace OtaAgent.Files

namespace Tree

variable {t next last other : Tree} {p src dst : Path} {cwd loc : Location}
  {held wider : Location → Prop} {content : Bytes}

/-- Both trees have the same directories, and a file where `held` says if the other one has one
there. -/
structure Alike (cwd : Location) (held : Location → Prop) (t other : Tree) : Prop where
  cwd : t.cwd = cwd
  sound : t.Sound
  there : t.KeepsDirs other
  back : other.KeepsDirs t
  files : ∀ loc, held loc → (t.content? loc = none ↔ other.content? loc = none)

theorem Alike.refl (here : t.cwd = cwd) (sound : t.Sound) : Alike cwd held t t :=
  ⟨here, sound, .refl t, .refl t, fun _ _ => .rfl⟩

theorem Alike.cwd' (alike : Alike cwd held t other) : other.cwd = cwd :=
  alike.there.cwd.trans alike.cwd

theorem Alike.sound' (alike : Alike cwd held t other) : other.Sound :=
  alike.sound.of_keepsDirs alike.there

theorem Alike.symm (alike : Alike cwd held t other) : Alike cwd held other t :=
  ⟨alike.cwd', alike.sound', alike.back, alike.there, fun loc inside =>
    (alike.files loc inside).symm⟩

theorem Alike.trans (first : Alike cwd held t next) (second : Alike cwd held next last) :
    Alike cwd held t last :=
  ⟨first.cwd, first.sound, first.there.trans second.there, second.back.trans first.back,
    fun loc inside => (first.files loc inside).trans (second.files loc inside)⟩

theorem Alike.imp (alike : Alike cwd wider t other) (imp : ∀ loc, held loc → wider loc) :
    Alike cwd held t other :=
  { alike with files := fun loc inside => alike.files loc (imp loc inside) }

/-- What has grown by files alone has the same directories. -/
theorem Grows.back (grows : t.Grows next fun _ => False) : next.KeepsDirs t where
  cwd := grows.keepsDirs.cwd.symm
  cwdLost := grows.keepsDirs.cwdLost.symm
  dirs loc isDir := (grows.made loc isDir).resolve_right id

/-- Trees stay alike when files change in both. -/
theorem Alike.after (alike : Alike cwd held t other) (first : t.Grows next fun _ => False)
    (second : other.Grows last fun _ => False)
    (files : ∀ loc, wider loc → (next.content? loc = none ↔ last.content? loc = none)) :
    Alike cwd wider next last where
  cwd := first.keepsDirs.cwd.trans alike.cwd
  sound := alike.sound.of_keepsDirs first.keepsDirs
  there := first.back.trans (alike.there.trans second.keepsDirs)
  back := second.back.trans (alike.back.trans first.keepsDirs)
  files

theorem Alike.read (alike : Alike cwd held t other) (inside : held (p.lead cwd))
    (found : t.read p = .ok content) : ∃ content, other.read p = .ok content := by
  obtain ⟨⟨parent, name, placed⟩, there⟩ := placed_of_read found
  rw [alike.cwd] at there
  have here : parent ++ [name] = p.lead cwd := alike.cwd ▸ place_entry placed
  cases found' : other.content? (p.lead cwd) with
  | none =>
    rw [(alike.files _ inside).mpr found'] at there
    cases there
  | some held' =>
    exact ⟨held', read_of_placed (place_of_keepsDirs alike.there placed) (here ▸ found')⟩

/-- What can be opened for writing in one tree can be in the other, and the trees stay alike
whatever is written. -/
theorem Alike.target {before : Option Bytes} (alike : Alike cwd held t other)
    (aimed : t.target p = .ok (loc, before)) : ∃ before', other.target p = .ok (loc, before') ∧
      ∀ bytes bytes', Alike cwd (fun at_ => held at_ ∨ at_ = p.lead cwd)
        (t.put loc (.file bytes)) (other.put loc (.file bytes')) := by
  obtain ⟨lead, below, free, -⟩ := target_lead aimed
  obtain ⟨parent, name, placed, isDir, rfl⟩ := placed_of_target aimed
  have placed' := place_of_keepsDirs alike.there placed
  have isDir' := alike.there.dirs _ isDir
  have aimed' : ∃ before', other.target p = .ok (parent ++ [name], before') := by
    cases node : other.node? (parent ++ [name]) with
    | none => simp [Tree.target, placed', isDir', node]
    | some n => cases n with
      | dir => exact absurd (alike.back.dirs _ node) free
      | file content => simp [Tree.target, placed', isDir', node]
  obtain ⟨before', aimed'⟩ := aimed'
  refine ⟨before', aimed', fun bytes bytes' => ?_⟩
  refine alike.after (grows_target aimed bytes) (grows_target aimed' bytes') fun at_ inside => ?_
  rw [content?_put _ _ below, content?_put _ _ below]
  split
  · simp [Node.content?]
  · rename_i apart
    rw [lead, alike.cwd] at apart
    exact alike.files at_ (inside.resolve_right apart)

theorem Alike.create (alike : Alike cwd held t other) (made : t.create p = .ok next) :
    ∃ last, other.create p = .ok last ∧
      Alike cwd (fun loc => held loc ∨ loc = p.lead cwd) next last := by
  obtain ⟨⟨loc, before⟩, aimed, rfl⟩ := exists_ok_of_map made
  obtain ⟨before', aimed', filled⟩ := alike.target aimed
  exact ⟨_, by rw [Tree.create, aimed']; rfl, filled _ _⟩

theorem Alike.touch (alike : Alike cwd held t other) (made : t.touch p = .ok next) :
    ∃ last, other.touch p = .ok last ∧
      Alike cwd (fun loc => held loc ∨ loc = p.lead cwd) next last := by
  obtain ⟨⟨loc, before⟩, aimed, rfl⟩ := exists_ok_of_map made
  obtain ⟨before', aimed', filled⟩ := alike.target aimed
  exact ⟨_, by rw [Tree.touch, aimed']; rfl, filled _ _⟩

theorem Alike.write {bytes : Bytes} (bytes' : Bytes) (alike : Alike cwd held t other)
    (made : t.write p bytes = .ok next) : ∃ last, other.write p bytes' = .ok last ∧
      Alike cwd (fun loc => held loc ∨ loc = p.lead cwd) next last := by
  obtain ⟨⟨loc, before⟩, aimed, rfl⟩ := exists_ok_of_map made
  obtain ⟨before', aimed', filled⟩ := alike.target aimed
  exact ⟨_, by rw [Tree.write, aimed']; rfl, filled _ _⟩

/-- A file that both trees have can be written on in both, whatever is written. -/
theorem Alike.append {bytes : Bytes} (bytes' : Bytes) (alike : Alike cwd held t other)
    (inside : held (p.lead cwd)) (made : t.append p bytes = .ok next) :
    ∃ last, other.append p bytes' = .ok last ∧ Alike cwd held next last := by
  unfold Tree.append at made
  split at made
  · rename_i loc content aimed
    cases made
    obtain ⟨lead, -, -, before⟩ := target_lead aimed
    obtain ⟨before', aimed', filled⟩ := alike.target aimed
    obtain ⟨-, -, -, after⟩ := target_lead aimed'
    cases before' with
    | none =>
      rw [lead, alike.cwd] at before after
      rw [(alike.files _ inside).mpr after.symm] at before
      cases before
    | some content' =>
      exact ⟨_, by rw [Tree.append, aimed'], (filled _ _).imp fun _ => .inl⟩
  · cases made
  · cases made

theorem stat_of_read (found : t.read p = .ok content) : t.stat p = .ok (.file content) := by
  obtain ⟨⟨loc, _⟩, file, rfl⟩ := exists_ok_of_map found
  rw [stat, file]

/-- The steps of a copy. -/
theorem copy_iff : t.copy src dst = .ok next ↔ ∃ held emptied content, t.read src = .ok held ∧
    t.create dst = .ok emptied ∧ emptied.read src = .ok content ∧
    emptied.write dst content = .ok next := by
  constructor
  · intro made
    obtain ⟨held, found⟩ := exists_read_of_copy made
    rw [copy, stat_of_read found] at made
    obtain ⟨emptied, created, made⟩ := exists_ok_of_bind made
    obtain ⟨content, read, written⟩ := exists_ok_of_bind made
    exact ⟨held, emptied, content, found, created, read, written⟩
  · rintro ⟨held, emptied, content, found, created, read, written⟩
    simp only [copy, stat_of_read found, created, bind, Except.bind, read, written]

theorem Alike.copy (alike : Alike cwd held t other) (inside : held (src.lead cwd))
    (made : t.copy src dst = .ok next) :
    ∃ last, other.copy src dst = .ok last ∧ Alike cwd held next last := by
  obtain ⟨_, emptied, _, found, created, read, written⟩ := copy_iff.mp made
  obtain ⟨_, found'⟩ := alike.read inside found
  obtain ⟨emptied', created', still⟩ := alike.create created
  obtain ⟨content, read'⟩ := still.read (.inl inside) read
  obtain ⟨last, written', done⟩ := still.write content written
  exact ⟨last, copy_iff.mpr ⟨_, _, _, found', created', read', written'⟩,
    done.imp fun _ inside => .inl (.inl inside)⟩

theorem placed_of_rename (made : t.rename src dst = .ok next) :
    (∃ content, t.read src = .ok content) ∧ ∃ parent name,
      t.place dst = .ok (.entry parent name false) ∧ t.node? parent = some .dir ∧
        t.node? (parent ++ [name]) ≠ some .dir := by
  obtain ⟨⟨source, content⟩, found, made⟩ := exists_ok_of_bind made
  obtain ⟨place, placed, made⟩ := exists_ok_of_bind made
  refine ⟨⟨content, by rw [Tree.read, found]; rfl⟩, ?_⟩
  split at made
  · cases made
  · cases made
  · rename_i parent name slash
    split at made
    · cases made
    · rename_i plain
      rw [Bool.not_eq_true] at plain
      subst plain
      split at made
      · cases made
      · rename_i isDir
        refine ⟨parent, name, placed, Decidable.not_not.mp isDir, ?_⟩
        split at made
        · cases made
        · assumption

/-- A file that was moved is read where it was moved to. -/
theorem read_of_rename (sound : t.Sound) (found : t.read src = .ok content)
    (made : t.rename src dst = .ok next) : next.read dst = .ok content := by
  obtain ⟨-, parent, name, placed, -, -⟩ := placed_of_rename made
  obtain ⟨moved, source, target⟩ := content?_of_rename made
  obtain rfl : content = moved :=
    Option.some.inj ((placed_of_read found).2.symm.trans source)
  rw [← place_entry placed] at target
  exact read_of_placed (place_of_keepsDirs (keepsDirs_rename sound made) placed) target

theorem Alike.rename (alike : Alike cwd held t other) (inside : held (src.lead cwd))
    (made : t.rename src dst = .ok next) :
    ∃ last, other.rename src dst = .ok last ∧ Alike cwd held next last := by
  obtain ⟨⟨content, found⟩, parent, name, placed, isDir, free⟩ := placed_of_rename made
  obtain ⟨content', found'⟩ := alike.read inside found
  obtain ⟨last, made'⟩ := exists_rename found' (place_of_keepsDirs alike.there placed)
    (alike.there.dirs _ isDir) (mt (alike.back.dirs _) free)
  refine ⟨last, made', alike.after (grows_rename alike.sound made) (grows_rename alike.sound' made')
    fun loc inside => ?_⟩
  have keeps := keeps_rename made
  have keeps' := keeps_rename made'
  obtain ⟨moved, -, there⟩ := content?_of_rename made
  obtain ⟨moved', -, there'⟩ := content?_of_rename made'
  rw [alike.cwd] at keeps there
  rw [alike.cwd'] at keeps' there'
  by_cases target : loc = dst.lead cwd
  · simp [target, there, there']
  · by_cases source : loc = src.lead cwd
    · have gone := content?_source_of_rename made
      have gone' := content?_source_of_rename made'
      rw [alike.cwd] at gone
      rw [alike.cwd'] at gone'
      rw [source] at target ⊢
      rw [gone target, gone' target]
    · rw [keeps.content loc (by simp [source, target]),
        keeps'.content loc (by simp [source, target])]
      exact alike.files loc inside

end Tree

section Leaves

variable {op : Op} {t x : Tree} {cwd : Location} {held : Location → Prop}

/-- What an operation leaves that changes other files only. -/
theorem Op.Leaves.alike (left : op.Leaves t x) (plain : op.Plain) (sound : t.Sound)
    (here : t.cwd = cwd) (outside : ∀ loc, held loc → ¬ op.Touches cwd loc) :
    Tree.Alike cwd held t x := by
  have started : Tree.Alike cwd held t t := .refl here sound
  refine started.after (.refl t _) (left.grows plain sound) fun loc inside => ?_
  subst here
  rw [left.keeps.content loc (outside loc inside)]

/-- What a copy leaves still has the file that is copied, if it was there. -/
theorem Op.Leaves.alike_copy {src dst : Path} (left : Op.Leaves (.copy src dst) t x)
    (sound : t.Sound) (here : t.cwd = cwd) : Tree.Alike cwd (· = src.lead cwd) t x := by
  subst here
  have started : Tree.Alike t.cwd (· = src.lead t.cwd) t t := .refl rfl sound
  refine started.after (.refl t _) (left.grows trivial sound) ?_
  rintro _ rfl
  by_cases same : src.lead t.cwd = dst.lead t.cwd
  · -- a file that is copied onto itself is emptied, and is there all the time
    have both (held : Bytes) (found : t.read src = .ok held)
        (filled : x.content? (dst.lead t.cwd) ≠ none) :
        t.content? (src.lead t.cwd) = none ↔ x.content? (src.lead t.cwd) = none := by
      rw [(Tree.placed_of_read found).2, same]
      simp [filled]
    cases left with
    | before => rfl
    | after =>
      cases made : t.copy src dst with
      | error e => simp [Op.apply, settle, made]
      | ok next =>
        obtain ⟨held, emptied, content, found, created, -, written⟩ := Tree.copy_iff.mp made
        have filled := Tree.content?_of_write written
        rw [(Tree.keeps_create created).cwd] at filled
        simp only [Op.apply, settle, made] at both ⊢
        exact both held found (by simp [filled])
    | copying found created read part wrote =>
      obtain ⟨_, -, filled⟩ := Tree.content?_of_append wrote
      rw [(Tree.keeps_create created).cwd] at filled
      exact both _ found (by simp [filled])
  · rw [left.keeps.content _ same]

theorem Op.safe_alike {y : Tree} (plain : op.Plain)
    (outside : ∀ loc, held loc → ¬ op.Touches cwd loc) : op.Safe (Tree.Alike cwd held y ·) :=
  fun _ _ alike left => alike.trans (left.alike plain alike.sound' alike.cwd' outside)

theorem Op.safe_alike_copy {y : Tree} {src dst : Path} :
    (Op.copy src dst).Safe (Tree.Alike cwd (· = src.lead cwd) y ·) :=
  fun _ _ alike left => alike.trans (left.alike_copy alike.sound' alike.cwd')

end Leaves

namespace Job

variable {ε α β α' β' : Type} {cwd : Location} {before between after held : Location → Prop}
  {t x : Tree}

/-- The job is granted on the tree. -/
def Grants (job : Job ε α) (t : Tree) : Prop := ∃ a next, job.runOn t = (.ok a, next)

theorem grants_bind {job : Job ε α} {f : α → Job ε β} : (job >>= f).Grants t ↔
    ∃ a next, job.runOn t = (.ok a, next) ∧ (f a).Grants next := by
  constructor
  · rintro ⟨b, last, ran⟩
    obtain ⟨a, next, first, rest⟩ := runOn_bind_ok ran
    exact ⟨a, next, first, b, last, rest⟩
  · rintro ⟨a, next, first, b, last, rest⟩
    refine ⟨b, last, ?_⟩
    rw [runOn_bind, first]
    exact rest

/-- Where the one job is granted, the other one is granted on a tree that is alike, and what they
make of both is alike again. -/
def Follows (cwd : Location) (before after : Location → Prop) (job : Job ε α)
    (other : Job ε β) : Prop :=
  ∀ t x a next, Tree.Alike cwd before t x → job.runOn t = (.ok a, next) →
    ∃ b last, other.runOn x = (.ok b, last) ∧ Tree.Alike cwd after next last

theorem Follows.pure (a : α) (b : β) :
    Follows cwd held held (pure a : Job ε α) (pure b : Job ε β) := by
  rintro t x _ _ alike ran
  cases ran
  exact ⟨b, x, rfl, alike⟩

theorem Follows.bind {job : Job ε α} {other : Job ε β} {f : α → Job ε α'} {g : β → Job ε β'}
    (first : Follows cwd before between job other)
    (rest : ∀ a b, Follows cwd between after (f a) (g b)) :
    Follows cwd before after (job >>= f) (other >>= g) := by
  intro t x c last alike ran
  obtain ⟨a, next, begun, ran⟩ := runOn_bind_ok ran
  obtain ⟨b, next', begun', still⟩ := first t x a next alike begun
  obtain ⟨c', last', ran', done⟩ := rest a b next next' c last still ran
  refine ⟨c', last', ?_, done⟩
  rw [runOn_bind, begun']
  exact ran'

/-- An operation that settles follows another one if what it makes does. -/
theorem follows_attempt {op op' : Op} {fault fault' : IoFault → ε}
    {made made' : Tree → Except IoFault Tree} (settles : ∀ t, op.apply t = settle t (made t))
    (settles' : ∀ t, op'.apply t = settle t (made' t))
    (follows : ∀ t x next, Tree.Alike cwd before t x → made t = .ok next →
      ∃ last, made' x = .ok last ∧ Tree.Alike cwd after next last) :
    Follows cwd before after (attempt op fault) (attempt op' fault') := by
  intro t x bytes next alike ran
  have applied := runOn_attempt_ok ran
  rw [settles] at applied
  obtain ⟨last, done, still⟩ := follows t x next alike (settle_ok applied)
  refine ⟨[], last, ?_, still⟩
  rw [runOn_attempt, settles', done]
  rfl

section

variable {fault fault' : IoFault → ε} {p src dst : Path} {bytes bytes' : Bytes}

theorem follows_touch : Follows cwd held (fun loc => held loc ∨ loc = p.lead cwd)
    (attempt (.touch p) fault) (attempt (.touch p) fault') :=
  follows_attempt (fun _ => rfl) (fun _ => rfl) fun _ _ _ alike => alike.touch

theorem follows_create : Follows cwd held (fun loc => held loc ∨ loc = p.lead cwd)
    (attempt (.create p) fault) (attempt (.create p) fault') :=
  follows_attempt (fun _ => rfl) (fun _ => rfl) fun _ _ _ alike => alike.create

theorem follows_append (inside : held (p.lead cwd)) : Follows cwd held held
    (attempt (.append p bytes) fault) (attempt (.append p bytes') fault') :=
  follows_attempt (fun _ => rfl) (fun _ => rfl) fun _ _ _ alike => alike.append bytes' inside

theorem follows_copy (inside : held (src.lead cwd)) : Follows cwd held held
    (attempt (.copy src dst) fault) (attempt (.copy src dst) fault') :=
  follows_attempt (fun _ => rfl) (fun _ => rfl) fun _ _ _ alike => alike.copy inside

theorem follows_rename (inside : held (src.lead cwd)) : Follows cwd held held
    (attempt (.rename src dst) fault) (attempt (.rename src dst) fault') :=
  follows_attempt (fun _ => rfl) (fun _ => rfl) fun _ _ _ alike => alike.rename inside

end

/-- A job that follows itself is granted on both of two trees that are alike, or on neither. -/
theorem Follows.grants_iff {job : Job ε α} (follows : Follows cwd before after job job)
    (alike : Tree.Alike cwd before t x) : job.Grants x ↔ job.Grants t := by
  have goes {t x : Tree} (alike : Tree.Alike cwd before t x) (grants : job.Grants t) :
      job.Grants x := by
    obtain ⟨a, next, ran⟩ := grants
    obtain ⟨b, last, ran', -⟩ := follows t x a next alike ran
    exact ⟨b, last, ran'⟩
  exact ⟨goes alike.symm, goes alike⟩

/-- Cut off with `x` left of `t` and begun again, the job is granted if it would have been. -/
structure Restarts (job : Job ε α) (t x : Tree) : Prop where
  dirs : t.KeepsDirs x
  grants : job.Grants x ↔ job.Grants t

theorem Follows.restarts {job : Job ε α} (follows : Follows cwd held after job job)
    (always : Throughout (Tree.Alike cwd held t ·) job) (sound : t.Sound) (here : t.cwd = cwd)
    (left : job.Leaves t x) : job.Restarts t x := by
  have alike := always t x (.refl here sound) left
  exact ⟨alike.there, follows.grants_iff alike⟩

end Job

end OtaAgent.Files
