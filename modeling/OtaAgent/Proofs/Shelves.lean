import OtaAgent.Bench
import OtaAgent.Proofs.Files.Opened

set_option autoImplicit false

namespace OtaAgent

open Files

namespace Files.Tree

variable {t next last : Tree} {at_ loc : Location} {places : Location → Prop}

/-- `next` is `t` but for what lies at `at_` or below. -/
structure SameBut (t next : Tree) (at_ : Location) : Prop where
  cwd : next.cwd = t.cwd
  cwdLost : next.cwdLost = t.cwdLost
  node : ∀ loc, ¬ at_ <+: loc → next.node? loc = t.node? loc

theorem SameBut.refl (t : Tree) (at_ : Location) : t.SameBut t at_ := ⟨rfl, rfl, fun _ _ => rfl⟩

theorem SameBut.trans (first : t.SameBut next at_) (second : next.SameBut last at_) :
    t.SameBut last at_ where
  cwd := second.cwd.trans first.cwd
  cwdLost := second.cwdLost.trans first.cwdLost
  node loc outside := (second.node loc outside).trans (first.node loc outside)

theorem Grows.sameBut {touched : Location → Prop} (grows : t.Grows next places)
    (keeps : t.Keeps next touched) (made : ∀ loc, places loc → at_ <+: loc)
    (written : ∀ loc, touched loc → at_ <+: loc) : t.SameBut next at_ where
  cwd := grows.keepsDirs.cwd
  cwdLost := grows.keepsDirs.cwdLost
  node loc outside :=
    grows.node? keeps (fun inside => outside (made loc inside))
      fun inside => outside (written loc inside)

def Empty (t : Tree) (at_ : Location) : Prop := ∀ loc, at_ <+: loc → t.node? loc = none

/-- What lies at `at_` or below is in a directory there, and at most one file is. -/
structure Neat (t : Tree) (at_ : Location) : Prop where
  rooted : ∀ loc, at_ <+: loc → t.node? loc ≠ none → t.node? at_ = some .dir
  single : ∀ loc other, at_ <+: loc → at_ <+: other → (t.content? loc).isSome →
    (t.content? other).isSome → loc = other

theorem Empty.neat (empty : t.Empty at_) : t.Neat at_ where
  rooted loc inside there := absurd (empty loc inside) there
  single loc other inside _ there := by simp [content?, empty loc inside] at there

theorem Neat.of_same (neat : t.Neat at_)
    (same : ∀ loc, at_ <+: loc → next.node? loc = t.node? loc) : next.Neat at_ where
  rooted loc inside there := by
    rw [same loc inside] at there
    rw [same at_ List.prefix_rfl]
    exact neat.rooted loc inside there
  single loc other inside insideOther there thereOther := by
    rw [content?, same _ inside] at there
    rw [content?, same _ insideOther] at thereOther
    exact neat.single loc other inside insideOther there thereOther

/-- Where nothing was, one file is put below `at_`, with the directories for it. -/
theorem Empty.neat_of_grows (empty : t.Empty at_) (grows : t.Grows next places)
    (keeps : t.Keeps next (· = loc)) (below : loc ≠ at_) : next.Neat at_ where
  rooted := by
    suffices rooted : ∀ up : List String, next.node? (at_ ++ up.reverse) ≠ none →
        next.node? at_ = some .dir by
      intro _ inside there
      obtain ⟨more, rfl⟩ := inside
      exact rooted more.reverse (by rwa [List.reverse_reverse])
    intro up there
    induction up with
    | nil =>
      rw [List.reverse_nil, List.append_nil] at there
      cases node : next.node? at_ with
      | none => exact absurd node there
      | some n => cases n with
        | dir => rfl
        | file content =>
          have before := keeps.content at_ below.symm
          rw [content?_of_file node, content?, empty at_ List.prefix_rfl] at before
          cases before
    | cons name up ih =>
      rw [List.reverse_cons, ← List.append_assoc] at there
      rcases grows.rooted _ there with before | isDir
      · exact absurd (empty _ ⟨up.reverse ++ [name], by simp⟩) before
      · rw [List.dropLast_concat] at isDir
        exact ih (by simp [isDir])
  single := by
    have only (other : Location) (inside : at_ <+: other) (there : (next.content? other).isSome) :
        other = loc := by
      refine Decidable.byContradiction fun different => ?_
      rw [keeps.content other different, content?, empty other inside] at there
      cases there
    intro one two insideOne insideTwo thereOne thereTwo
    rw [only one insideOne thereOne, only two insideTwo thereTwo]

end Files.Tree

namespace Bench

variable {b : Bench} {base t next : Tree} {cache : Location} {package : String}

/-- In `base` the cache is there and nothing lies in it. -/
structure Vacant (b : Bench) (base : Tree) (cache : Location) : Prop where
  sound : base.Sound
  opened : base.Opened b.cacheDir cache
  empty : ∀ name more, base.node? (cache ++ name :: more) = none

theorem Vacant.not_dir (vacant : b.Vacant base cache) {name : String} {loc : Location}
    (inside : cache ++ [name] <+: loc) : base.node? loc ≠ some .dir := by
  obtain ⟨more, rfl⟩ := inside
  rw [List.append_assoc, List.singleton_append, vacant.empty name more]
  nofun

/-- What happens on one shelf takes none of the first directories away. -/
theorem Vacant.keepsDirs (vacant : b.Vacant base cache) (keeps : base.KeepsDirs t)
    (same : t.SameBut next (cache ++ [package])) : base.KeepsDirs next where
  cwd := same.cwd.trans keeps.cwd
  cwdLost := same.cwdLost.trans keeps.cwdLost
  dirs loc isDir := by
    rw [same.node loc fun inside => vacant.not_dir inside isDir]
    exact keeps.dirs loc isDir

/-- The working directory is not taken away with what lies on a shelf. -/
theorem Vacant.cwd_of_not_lost (vacant : b.Vacant base cache) (keeps : base.KeepsDirs t)
    (there : t.cwdLost = false) : ¬ cache ++ [package] <+: t.cwd := by
  rw [keeps.cwdLost] at there
  rw [keeps.cwd]
  rcases vacant.sound with lost | isDir
  · rw [there] at lost
    cases lost
  · exact fun inside => vacant.not_dir inside isDir

theorem Vacant.sameBut_without (vacant : b.Vacant base cache) (keeps : base.KeepsDirs t)
    {gone : Location → Bool} (inside : ∀ loc, gone loc = true → cache ++ [package] <+: loc) :
    t.SameBut (t.without gone) (cache ++ [package]) where
  cwd := rfl
  cwdLost := Tree.cwdLost_without_of_not fun there =>
    Bool.eq_false_iff.mpr fun hit => vacant.cwd_of_not_lost keeps there (inside _ hit)
  node _ outside :=
    Tree.node?_without_of_not (Bool.eq_false_iff.mpr fun hit => outside (inside _ hit))

theorem runOn_clear (dir : Path) (t : Tree) :
    (clear dir).runOn t = (match (t.removeAll dir).1 with
      | .ok _ => .ok ()
      | .error .notFound => .ok ()
      | .error e => .error (.file (.clear dir) e), (t.removeAll dir).2) := by
  unfold clear
  rw [Job.runOn_bind, Job.runOn_ask]
  simp only [Op.apply, silent]
  cases (t.removeAll dir).1 with
  | ok _ => rfl
  | error e => cases e <;> rfl

/-- A directory on a shelf is taken away with all that lies in it. -/
theorem Vacant.removeAll_of_dir (vacant : b.Vacant base cache) (keeps : base.KeepsDirs t)
    (isName : Path.IsName package)
    (placed : t.place (b.shelf package) = .ok (.entry cache package false))
    (isDir : t.node? (cache ++ [package]) = some .dir) :
    ∃ next, t.removeAll (b.shelf package) = (.ok (), next) ∧
      t.SameBut next (cache ++ [package]) ∧ next.Empty (cache ++ [package]) := by
  have below : cache ++ [package] ≠ [] := by simp
  have emptied : t.SameBut (t.eraseBelow (cache ++ [package])) (cache ++ [package]) := by
    refine vacant.sameBut_without keeps fun loc hit => ?_
    rw [Bool.and_eq_true] at hit
    exact List.isPrefixOf_iff_prefix.mp hit.1
  have keeps' := vacant.keepsDirs keeps emptied
  have last : (t.eraseBelow (cache ++ [package])).SameBut
      ((t.eraseBelow (cache ++ [package])).erase (cache ++ [package])) (cache ++ [package]) := by
    refine vacant.sameBut_without keeps' fun loc hit => ?_
    obtain rfl := eq_of_beq hit
    exact List.prefix_rfl
  have still : (t.eraseBelow (cache ++ [package])).node? (cache ++ [package]) = some .dir := by
    rw [Tree.eraseBelow, Tree.node?_without _ below]
    simp [isDir]
  have placed' : (t.eraseBelow (cache ++ [package])).place (b.shelf package) =
      .ok (.entry cache package false) := by
    rw [← placed]
    exact (vacant.opened.of_keepsDirs keeps).place_join_eq (vacant.opened.of_keepsDirs keeps')
      isName
  refine ⟨_, ?_, emptied.trans last, fun loc inside => ?_⟩
  · simp only [Tree.removeAll, Tree.dirAt, placed, isDir, Tree.removeDir, placed', still]
  · have top : loc ≠ [] := by
      rintro rfl
      simp at inside
    rw [Tree.erase, Tree.node?_without _ top, Tree.eraseBelow, Tree.node?_without _ top]
    by_cases same : loc = cache ++ [package]
    · simp [same]
    · simp [same, List.isPrefixOf_iff_prefix.mpr inside]

/-- To clear a shelf takes away all that is on it, and is refused only if no path leads to it. -/
theorem Vacant.clear_cases (vacant : b.Vacant base cache) (keeps : base.KeepsDirs t)
    (isName : Path.IsName package) (neat : t.Neat (cache ++ [package])) :
    (∃ next, (clear (b.shelf package)).runOn t = (.ok (), next) ∧
      t.SameBut next (cache ++ [package]) ∧ next.Empty (cache ++ [package])) ∨
    ∃ e, (clear (b.shelf package)).runOn t = (.error e, t) ∧
      ∀ place, t.place (b.shelf package) ≠ .ok place := by
  have opened := vacant.opened.of_keepsDirs keeps
  rw [runOn_clear]
  cases placed : t.place (b.shelf package) with
  | error e =>
    have missing : e ≠ .notFound := by
      rintro rfl
      exact opened.place_join_ne isName placed
    have refused : t.removeAll (b.shelf package) = (.error e, t) := by
      simp only [Tree.removeAll, Tree.dirAt, placed]
    rw [refused]
    exact .inr ⟨.file (.clear (b.shelf package)) e, by cases e <;> trivial, nofun⟩
  | ok place =>
    cases opened.entry_of_place isName placed
    cases node : t.node? (cache ++ [package]) with
    | some n =>
      have isDir := neat.rooted _ List.prefix_rfl (by simp [node])
      obtain ⟨next, removed, same, empty⟩ := vacant.removeAll_of_dir keeps isName placed isDir
      rw [removed]
      exact .inl ⟨next, rfl, same, empty⟩
    | none =>
      have absent : t.removeAll (b.shelf package) = (.error .notFound, t) := by
        simp only [Tree.removeAll, Tree.dirAt, placed, node]
      rw [absent]
      refine .inl ⟨t, rfl, .refl t _, fun loc inside => ?_⟩
      cases there : t.node? loc with
      | none => rfl
      | some n =>
        have isDir := neat.rooted loc inside (by simp [there])
        rw [node] at isDir
        cases isDir

section Shelve

variable {u : Update}

theorem isName_shelfName (isName : Path.IsName u.name) (isVersion : Path.IsName u.version) :
    Path.IsName (u.file.fileName?.getD (u.name ++ "-" ++ u.version)) := by
  cases named : u.file.fileName? with
  | some name => exact Path.isName_of_fileName? named
  | none =>
    have dash : '-' ∈ (u.name ++ "-" ++ u.version).toList := by simp
    refine ⟨?_, ?_, ?_, by simp [isName.noSlash, isVersion.noSlash]⟩ <;>
    · intro same
      rw [Option.getD_none] at same
      rw [same] at dash
      simp at dash

/-- The path of what is staged leads below the cache. -/
theorem below_shelfPath (isName : Path.IsName u.name) (isVersion : Path.IsName u.version) :
    Path.Below b.cacheDir
      [u.name, u.version, u.file.fileName?.getD (u.name ++ "-" ++ u.version)] (b.shelfPath u) :=
  ((Path.below_join b.cacheDir isName).join isVersion).join (isName_shelfName isName isVersion)

def stow (b : Bench) (u : Update) : FileJob Unit := do
  let _ ← Job.attempt (.makeDirs ((b.shelf u.name).join u.version)) .io
  let _ ← Job.attempt (.copy u.file (b.shelfPath u)) (.file (.stage u.file (b.shelfPath u)))

theorem shelve_eq (isName : Path.IsName u.name) (isVersion : Path.IsName u.version) :
    b.shelve u = clear (b.shelf u.name) >>= fun _ => b.stow u := by
  have parent : (b.shelfPath u).parent? = some ((b.shelf u.name).join u.version) :=
    Path.parent?_join _ isVersion (isName_shelfName isName isVersion)
  unfold shelve stow
  dsimp only
  rw [parent]

theorem grows_stow (sound : t.Sound) (opened : t.Opened b.cacheDir cache)
    (isName : Path.IsName u.name) (isVersion : Path.IsName u.version) :
    t.Grows ((b.stow u).runOn t).2 (cache ++ [u.name] <+: ·) := by
  suffices maintains : Job.Maintains (t.Grows · (cache ++ [u.name] <+: ·)) (b.stow u) from
    maintains t (.refl t _)
  refine .bind (fun next grown => ?_) fun _ =>
    .bind (Job.maintains_grows trivial sound) fun _ => (Job.Looks.pure _).maintains
  rw [Job.runOn_attempt]
  have still := opened.of_keepsDirs grown.keepsDirs
  refine grown.trans ((still.grows_makeDirs isName isVersion).imp fun loc made => ?_)
  rcases made with rfl | rfl
  · exact List.prefix_rfl
  · exact ⟨[u.version], by simp⟩

theorem keeps_stow (opened : t.Opened b.cacheDir cache) (isName : Path.IsName u.name)
    (isVersion : Path.IsName u.version) :
    t.Keeps ((b.stow u).runOn t).2
      (· = cache ++ [u.name, u.version, u.file.fileName?.getD (u.name ++ "-" ++ u.version)]) := by
  have lead := (below_shelfPath (b := b) isName isVersion).lead t.cwd
  rw [opened.lead_eq] at lead
  rw [← lead]
  suffices within : Job.Within t.cwd (· = (b.shelfPath u).lead t.cwd) (b.stow u) from within t rfl
  exact .bind (Job.within_attempt fun _ => False.elim) fun _ =>
    .bind (Job.within_attempt fun _ => id) fun _ => (Job.Looks.pure _).within

/-- What has been put on the shelf holds the same as the file it was copied from. -/
theorem read_of_stow (opened : t.Opened b.cacheDir cache) (isName : Path.IsName u.name)
    (isVersion : Path.IsName u.version) (away : ¬ cache <+: u.file.lead t.cwd)
    (ran : (b.stow u).runOn t = (.ok (), next)) :
    ∃ content, next.read (b.shelfPath u) = .ok content ∧
      t.content? (u.file.lead t.cwd) = some content := by
  obtain ⟨_, made, make, ran⟩ := Job.runOn_bind_ok ran
  obtain ⟨_, _, copy, ran⟩ := Job.runOn_bind_ok ran
  cases ran
  have copied := Job.settle_ok (Job.runOn_attempt_ok copy)
  have keeps : t.Keeps made fun _ => False :=
    (Job.within_attempt fun _ => False.elim).keeps rfl make
  obtain ⟨content, held⟩ := Tree.exists_read_of_copy copied
  have there := (Tree.placed_of_read held).2
  rw [keeps.cwd, keeps.content _ id] at there
  refine ⟨content, Tree.read_of_copy ?_ held copied, there⟩
  rw [keeps.cwd, (below_shelfPath (b := b) isName isVersion).lead, opened.lead_eq]
  intro same
  exact away (same ▸ List.prefix_append _ _)

/-- To stage a file changes nothing but the shelf of its package, which has one file at most. -/
theorem Vacant.shelve (vacant : b.Vacant base cache) (keeps : base.KeepsDirs t)
    (isName : Path.IsName u.name) (isVersion : Path.IsName u.version)
    (neat : t.Neat (cache ++ [u.name])) :
    t.SameBut ((b.shelve u).runOn t).2 (cache ++ [u.name]) ∧
      ((b.shelve u).runOn t).2.Neat (cache ++ [u.name]) := by
  rw [shelve_eq isName isVersion, Job.runOn_bind]
  rcases vacant.clear_cases keeps isName neat with ⟨cleared, ran, same, empty⟩ | ⟨e, ran, -⟩
  · have keeps' := vacant.keepsDirs keeps same
    have opened := vacant.opened.of_keepsDirs keeps'
    have grows := grows_stow (vacant.sound.of_keepsDirs keeps') opened isName isVersion
    have written := keeps_stow opened isName isVersion
    rw [ran]
    refine ⟨same.trans (grows.sameBut written (fun _ => id) ?_), ?_⟩
    · rintro _ rfl
      exact ⟨_, by rw [List.append_assoc]; rfl⟩
    · exact empty.neat_of_grows grows written (by simp)
  · rw [ran]
    exact ⟨.refl t _, neat⟩

theorem Vacant.read_of_shelve (vacant : b.Vacant base cache) (keeps : base.KeepsDirs t)
    (isName : Path.IsName u.name) (isVersion : Path.IsName u.version)
    (neat : t.Neat (cache ++ [u.name])) (away : ¬ cache <+: u.file.lead t.cwd)
    (ran : (b.shelve u).runOn t = (.ok (), next)) :
    ∃ content, next.read (b.shelfPath u) = .ok content ∧
      t.content? (u.file.lead t.cwd) = some content := by
  rw [shelve_eq isName isVersion] at ran
  obtain ⟨_, cleared, first, ran⟩ := Job.runOn_bind_ok ran
  rcases vacant.clear_cases keeps isName neat with ⟨_, same, kept, -⟩ | ⟨e, refused, -⟩
  · obtain rfl := (Prod.mk.inj (same.symm.trans first)).2
    have opened := vacant.opened.of_keepsDirs (vacant.keepsDirs keeps kept)
    have outside : ¬ cache ++ [u.name] <+: u.file.lead t.cwd := fun inside =>
      away ((List.prefix_append _ _).trans inside)
    obtain ⟨content, held, there⟩ :=
      read_of_stow opened isName isVersion (by rwa [kept.cwd]) ran
    rw [kept.cwd, Tree.content?, kept.node _ outside] at there
    exact ⟨content, held, there⟩
  · rw [refused] at first
    cases first

theorem runOn_prepare_unwilling (unwilling : b.mode = .prepareFailure) :
    (b.prepare u).runOn t = (.ok ⟨.failed, none⟩, t) := by
  unfold prepare
  rw [if_pos unwilling, Job.runOn_pure]

theorem runOn_prepare_staged (willing : b.mode ≠ .prepareFailure)
    (same : (b.shelfPath u).same u.file = true) :
    (b.prepare u).runOn t = (.ok ⟨.ready, some (b.shelfPath u)⟩, t) := by
  unfold prepare
  simp only [willing, if_false, same, Bool.not_true, Bool.false_eq_true, Job.runOn_pure]

theorem runOn_prepare_of_other (willing : b.mode ≠ .prepareFailure)
    (other : (b.shelfPath u).same u.file = false) :
    (b.prepare u).runOn t = (((b.shelve u).runOn t).1.map fun _ => ⟨.ready, some (b.shelfPath u)⟩,
      ((b.shelve u).runOn t).2) := by
  have steps : b.prepare u = b.shelve u >>= fun _ => pure ⟨.ready, some (b.shelfPath u)⟩ := by
    unfold prepare
    simp only [willing, if_false, other, Bool.not_false, if_true]
  rw [steps, Job.runOn_bind]
  cases (b.shelve u).runOn t with
  | mk result next => cases result <;> rfl

/-- A file that does not lie in the cache is not the staged one. -/
theorem other_of_away (opened : t.Opened b.cacheDir cache) (isName : Path.IsName u.name)
    (isVersion : Path.IsName u.version) (away : ¬ cache <+: u.file.lead t.cwd) :
    (b.shelfPath u).same u.file = false := by
  refine Bool.eq_false_iff.mpr fun same => away ?_
  rw [← Path.lead_eq_of_same same, (below_shelfPath isName isVersion).lead, opened.lead_eq]
  exact List.prefix_append _ _

/-- What the agent answers when it is to stage a file that does not lie in the cache, and what
becomes of the shelf. -/
theorem Vacant.prepare (vacant : b.Vacant base cache) (keeps : base.KeepsDirs t)
    (isName : Path.IsName u.name) (isVersion : Path.IsName u.version)
    (neat : t.Neat (cache ++ [u.name])) (away : ¬ cache <+: u.file.lead t.cwd) :
    t.SameBut ((b.prepare u).runOn t).2 (cache ++ [u.name]) ∧
      ((b.prepare u).runOn t).2.Neat (cache ++ [u.name]) ∧
      ∀ newPath, ((b.prepare u).runOn t).1 = .ok ⟨.ready, newPath⟩ →
        newPath = some (b.shelfPath u) ∧
        ∃ content, ((b.prepare u).runOn t).2.read (b.shelfPath u) = .ok content ∧
          t.content? (u.file.lead t.cwd) = some content := by
  by_cases willing : b.mode = .prepareFailure
  · rw [runOn_prepare_unwilling willing]
    exact ⟨.refl t _, neat, nofun⟩
  · obtain ⟨same, neat'⟩ := vacant.shelve keeps isName isVersion neat
    have opened := vacant.opened.of_keepsDirs keeps
    rw [runOn_prepare_of_other willing (other_of_away opened isName isVersion away)]
    cases ran : (b.shelve u).runOn t with
    | mk result next =>
      rw [ran] at same neat'
      cases result with
      | error e => exact ⟨same, neat', nofun⟩
      | ok _ =>
        refine ⟨same, neat', fun newPath answered => ?_⟩
        cases answered
        exact ⟨rfl, vacant.read_of_shelve keeps isName isVersion neat away ran⟩

/-- What can be read on a shelf is read by a path that leads to the shelf. -/
theorem place_of_read (opened : t.Opened b.cacheDir cache) {file : String} {content : Bytes}
    {version : String} (isName : Path.IsName package) (isVersion : Path.IsName version)
    (isFile : Path.IsName file)
    (held : t.read (((b.shelf package).join version).join file) = .ok content) :
    t.place (b.shelf package) = .ok (.entry cache package false) := by
  have below := ((Path.below_join b.cacheDir isName).join isVersion).join isFile
  obtain ⟨⟨parent, name, placed⟩, -⟩ := Tree.placed_of_read held
  rw [shelf, opened.place_below below (by simp)] at placed
  split at placed
  · cases placed
  · rename_i clean
    have clean' : Tree.textFault? (b.cacheDir.join package) = none :=
      Tree.textFault?_of_join isVersion (Tree.textFault?_of_join isFile clean
        (Path.toList_join_ne_nil _ isVersion)) (Path.toList_join_ne_nil _ isName)
    obtain ⟨fits, -⟩ := Tree.isDir_of_walk isName (by simp) placed
    rw [shelf, opened.place_join isName, clean']
    exact if_neg (Nat.not_lt.mpr fits)

end Shelve

end Bench
end OtaAgent
