import OtaAgent.Proofs.Files.Within

set_option autoImplicit false

namespace OtaAgent.Files

namespace Tree

variable {t made next last : Tree} {p : Path} {at_ loc parent : Location} {names : List String}
  {name : String} {slash : Bool} {place : Place} {content : Bytes}

/-- The working directory is there, unless it was taken away. -/
def Sound (t : Tree) : Prop := t.cwdLost = true ∨ t.node? t.cwd = some .dir

/-- `next` has all directories of `t`, and its working directory. -/
structure KeepsDirs (t next : Tree) : Prop where
  cwd : next.cwd = t.cwd
  cwdLost : next.cwdLost = t.cwdLost
  dirs : ∀ loc, t.node? loc = some .dir → next.node? loc = some .dir

theorem KeepsDirs.refl (t : Tree) : t.KeepsDirs t := ⟨rfl, rfl, fun _ => id⟩

theorem KeepsDirs.trans (first : t.KeepsDirs next) (second : next.KeepsDirs last) :
    t.KeepsDirs last where
  cwd := second.cwd.trans first.cwd
  cwdLost := second.cwdLost.trans first.cwdLost
  dirs loc isDir := second.dirs loc (first.dirs loc isDir)

theorem Sound.of_keepsDirs (sound : t.Sound) (keeps : t.KeepsDirs next) : next.Sound := by
  rcases sound with lost | here
  · exact .inl (keeps.cwdLost.trans lost)
  · right
    rw [keeps.cwd]
    exact keeps.dirs _ here

theorem keepsDirs_put {n : Node} (below : at_ ≠ []) (free : t.node? at_ ≠ some .dir) :
    t.KeepsDirs (t.put at_ n) where
  cwd := rfl
  cwdLost := rfl
  dirs loc isDir := by
    have other : loc ≠ at_ := by
      rintro rfl
      exact free isDir
    rw [node?_put t at_ loc n below, if_neg other, isDir]

/-- Taking away a file takes away no directory. -/
theorem keepsDirs_erase (sound : t.Sound) (isFile : t.node? at_ = some (.file content)) :
    t.KeepsDirs (t.erase at_) where
  cwd := rfl
  cwdLost := by
    rcases sound with lost | here
    · simp [erase, without, lost]
    · have other : t.cwd ≠ at_ := by
        intro same
        rw [same, isFile] at here
        cases here
      simp [erase, without, other]
  dirs loc isDir := by
    have other : loc ≠ at_ := by
      rintro rfl
      rw [isFile] at isDir
      cases isDir
    by_cases top : loc = []
    · simp [node?, top]
    · rw [erase, node?_without _ top, if_neg (by simpa using other), isDir]

theorem step_of_dirs
    (dirs : t.node? (at_ ++ [name]) = some .dir → next.node? (at_ ++ [name]) = some .dir)
    (went : t.step at_ name = .ok loc) : next.step at_ name = .ok loc := by
  unfold step at went ⊢
  split
  · rename_i here
    rwa [if_pos here] at went
  · rename_i notHere
    rw [if_neg notHere] at went
    split
    · rename_i up
      rwa [if_pos up] at went
    · rename_i notUp
      rw [if_neg notUp] at went
      split at went
      · cases went
      · rename_i fits
        rw [if_neg fits]
        split at went
        · rename_i isDir
          rw [dirs isDir]
          exact went
        · cases went
        · cases went

theorem walk_of_keepsDirs (keeps : t.KeepsDirs next)
    (walked : t.walk slash at_ names = .ok place) : next.walk slash at_ names = .ok place := by
  induction names generalizing at_ with
  | nil => exact walked
  | cons name names ih =>
    cases names with
    | nil => simpa only [walk] using walked
    | cons other names =>
      rw [walk_cons name (by simp)] at walked ⊢
      obtain ⟨loc, went, walked⟩ := exists_ok_of_bind walked
      rw [step_of_dirs (keeps.dirs _) went]
      exact ih walked

theorem walkLost_of_keepsDirs (keeps : t.KeepsDirs next)
    (walked : t.walkLost slash names = .ok place) : next.walkLost slash names = .ok place := by
  induction names with
  | nil => exact walked
  | cons name names ih =>
    rw [walkLost] at walked ⊢
    split
    · rename_i here
      exact ih (by rwa [if_pos here] at walked)
    · rename_i notHere
      rw [if_neg notHere] at walked
      split
      · rename_i up
        rw [if_pos up] at walked
        rw [keeps.cwd]
        exact walk_of_keepsDirs keeps walked
      · rename_i notUp
        rw [if_neg notUp] at walked
        cases walked

theorem place_of_keepsDirs (keeps : t.KeepsDirs next) (placed : t.place p = .ok place) :
    next.place p = .ok place := by
  unfold Tree.place at placed ⊢
  simp only [keeps.cwd, keeps.cwdLost] at placed ⊢
  split at placed
  · cases placed
  · rename_i full
    rw [if_neg full]
    split at placed
    · cases placed
    · rename_i clean
      rw [if_neg clean]
      split at placed
      · cases placed
      · rename_i short
        rw [if_neg short]
        split at placed
        · rename_i absolute
          rw [if_pos absolute]
          exact walk_of_keepsDirs keeps placed
        · rename_i relative
          rw [if_neg relative]
          split at placed
          · rename_i lost
            rw [if_pos lost]
            exact walkLost_of_keepsDirs keeps placed
          · rename_i there
            rw [if_neg there]
            exact walk_of_keepsDirs keeps placed

/-- A file is read by a path that leads to it. -/
theorem read_of_placed (placed : t.place p = .ok (.entry parent name false))
    (there : t.content? (parent ++ [name]) = some content) : t.read p = .ok content := by
  rw [read_of_place placed, node?_of_content? there]

theorem placed_of_read (held : t.read p = .ok content) :
    (∃ parent name, t.place p = .ok (.entry parent name false)) ∧
      t.content? (p.lead t.cwd) = some content := by
  obtain ⟨⟨loc, _⟩, found, rfl⟩ := exists_ok_of_map held
  obtain ⟨rfl, there⟩ := fileAt_lead found
  refine ⟨?_, content?_of_file there⟩
  unfold fileAt at found
  split at found
  · cases found
  · cases found
  · cases found
  · rename_i parent name slash placed
    split at found
    · cases found
    · cases found
    · split at found
      · cases found
      · rename_i plain
        rw [Bool.not_eq_true] at plain
        subst plain
        exact ⟨parent, name, placed⟩

/-- A file that is read by a path is read by it as long as it holds the same. -/
theorem read_of_keepsDirs (keeps : t.KeepsDirs next) {held : Bytes} (before : t.read p = .ok held)
    (there : next.content? (p.lead t.cwd) = some content) : next.read p = .ok content := by
  obtain ⟨⟨parent, name, placed⟩, -⟩ := placed_of_read before
  rw [← place_entry placed] at there
  exact read_of_placed (place_of_keepsDirs keeps placed) there

theorem keepsDirs_makeDir (made : t.makeDir p = .ok next) : t.KeepsDirs next := by
  unfold makeDir at made
  split at made
  · cases made
  · cases made
  · cases made
  · rename_i parent name slash placed
    split at made
    · cases made
    · split at made
      · cases made
      · rename_i free
        cases made
        exact keepsDirs_put (by simp) (by simp [free])

theorem keepsDirs_makeDirsAlong (paths : List Path) (t : Tree) :
    t.KeepsDirs (makeDirsAlong paths t).2 := by
  induction paths generalizing t with
  | nil => exact .refl t
  | cons p up ih =>
    rw [makeDirsAlong]
    split
    · exact .refl t
    · split
      · rename_i made
        exact keepsDirs_makeDir made
      · have above := ih t
        split
        · rename_i failed
          rwa [failed] at above
        · rename_i next ready
          rw [ready] at above
          split
          · rename_i made
            exact above.trans (keepsDirs_makeDir made)
          · exact above
      · exact .refl t

theorem keepsDirs_target {held : Option Bytes} (aimed : t.target p = .ok (loc, held)) (n : Node) :
    t.KeepsDirs (t.put loc n) := by
  obtain ⟨-, below, free, -⟩ := target_lead aimed
  exact keepsDirs_put below free

theorem keepsDirs_create (made : t.create p = .ok next) : t.KeepsDirs next := by
  obtain ⟨⟨loc, held⟩, aimed, rfl⟩ := exists_ok_of_map made
  exact keepsDirs_target aimed _

theorem keepsDirs_touch (made : t.touch p = .ok next) : t.KeepsDirs next := by
  obtain ⟨⟨loc, held⟩, aimed, rfl⟩ := exists_ok_of_map made
  exact keepsDirs_target aimed _

theorem keepsDirs_append {bytes : Bytes} (made : t.append p bytes = .ok next) :
    t.KeepsDirs next := by
  unfold append at made
  split at made
  · rename_i aimed
    cases made
    exact keepsDirs_target aimed _
  · cases made
  · cases made

theorem keepsDirs_write {bytes : Bytes} (made : t.write p bytes = .ok next) :
    t.KeepsDirs next := by
  obtain ⟨⟨loc, held⟩, aimed, rfl⟩ := exists_ok_of_map made
  exact keepsDirs_target aimed _

theorem keepsDirs_copy {src dst : Path} (made : t.copy src dst = .ok next) : t.KeepsDirs next := by
  unfold copy at made
  split at made
  · cases made
  · cases made
  · obtain ⟨emptied, created, made⟩ := exists_ok_of_bind made
    obtain ⟨held, -, written⟩ := exists_ok_of_bind made
    exact (keepsDirs_create created).trans (keepsDirs_write written)

theorem keepsDirs_rename {src dst : Path} (sound : t.Sound) (made : t.rename src dst = .ok next) :
    t.KeepsDirs next := by
  obtain ⟨⟨source, held⟩, found, made⟩ := exists_ok_of_bind made
  obtain ⟨place, placed, made⟩ := exists_ok_of_bind made
  obtain ⟨-, isFile⟩ := fileAt_lead found
  split at made
  · cases made
  · cases made
  · rename_i parent name slash
    split at made
    · cases made
    · split at made
      · cases made
      · split at made
        · cases made
        · rename_i free
          cases made
          refine (keepsDirs_erase sound isFile).trans (keepsDirs_put (by simp) ?_)
          rw [erase, node?_without _ (by simp)]
          split
          · simp
          · exact free

/-- Where a file can be opened for writing, its directory is there. -/
theorem placed_of_target {held : Option Bytes} (aimed : t.target p = .ok (loc, held)) :
    ∃ parent name, t.place p = .ok (.entry parent name false) ∧ t.node? parent = some .dir ∧
      loc = parent ++ [name] := by
  unfold target at aimed
  split at aimed
  · cases aimed
  · cases aimed
  · cases aimed
  · rename_i parent name slash placed
    split at aimed
    · cases aimed
    · rename_i plain
      rw [Bool.not_eq_true] at plain
      subst plain
      split at aimed
      · cases aimed
      · rename_i isDir
        refine ⟨parent, name, placed, Decidable.not_not.mp isDir, ?_⟩
        split at aimed <;> cases aimed <;> rfl

theorem target_of_placed (placed : t.place p = .ok (.entry parent name false))
    (isDir : t.node? parent = some .dir)
    (isFile : t.node? (parent ++ [name]) = some (.file content)) :
    t.target p = .ok (parent ++ [name], some content) := by
  simp [target, placed, isDir, isFile]

theorem fileAt_of_placed (placed : t.place p = .ok (.entry parent name false))
    (isFile : t.node? (parent ++ [name]) = some (.file content)) :
    t.fileAt p = .ok (parent ++ [name], content) := by
  simp [fileAt, placed, isFile]

theorem exists_target_of_placed (placed : t.place p = .ok (.entry parent name false))
    (isDir : t.node? parent = some .dir) (free : t.node? (parent ++ [name]) ≠ some .dir) :
    ∃ place, t.target p = .ok place := by
  cases there : t.node? (parent ++ [name]) with
  | none => exact ⟨_, by simp [target, placed, isDir, there]; rfl⟩
  | some n => cases n with
    | dir => exact absurd there free
    | file content => exact ⟨_, target_of_placed placed isDir there⟩

/-- Where a file can be opened for writing, it still can when something is written. -/
theorem target_put {held : Option Bytes} (aimed : t.target p = .ok (loc, held)) (bytes : Bytes) :
    (t.put loc (.file bytes)).target p = .ok (loc, some bytes) := by
  have keeps := keepsDirs_target aimed (.file bytes)
  obtain ⟨parent, name, placed, isDir, rfl⟩ := placed_of_target aimed
  refine target_of_placed (place_of_keepsDirs keeps placed) (keeps.dirs _ isDir) ?_
  rw [node?_put t _ _ _ (by simp), if_pos rfl]

theorem create_of_target {held : Option Bytes} (aimed : t.target p = .ok (loc, held)) :
    t.create p = .ok (t.put loc (.file [])) := by
  rw [create, aimed]
  rfl

theorem append_put {held : Option Bytes} (aimed : t.target p = .ok (loc, held))
    (bytes more : Bytes) :
    (t.put loc (.file bytes)).append p more = .ok (t.put loc (.file (bytes ++ more))) := by
  rw [append, target_put aimed]
  dsimp only
  rw [put_put]

theorem read_put {held : Option Bytes} (aimed : t.target p = .ok (loc, held)) (bytes : Bytes) :
    (t.put loc (.file bytes)).read p = .ok bytes := by
  have keeps := keepsDirs_target aimed (.file bytes)
  obtain ⟨parent, name, placed, -, rfl⟩ := placed_of_target aimed
  refine read_of_placed (place_of_keepsDirs keeps placed) ?_
  rw [content?_put _ _ (by simp), if_pos rfl]
  rfl

theorem read_of_write {bytes : Bytes} (written : t.write p bytes = .ok next) :
    next.read p = .ok bytes := by
  obtain ⟨⟨loc, held⟩, aimed, rfl⟩ := exists_ok_of_map written
  exact read_put aimed bytes

/-- A copy of a file to another place holds the same. -/
theorem read_of_copy {src dst : Path} (apart : src.lead t.cwd ≠ dst.lead t.cwd)
    (held : t.read src = .ok content) (made : t.copy src dst = .ok next) :
    next.read dst = .ok content := by
  unfold copy at made
  split at made
  · cases made
  · cases made
  · obtain ⟨emptied, created, made⟩ := exists_ok_of_bind made
    have there : emptied.content? (src.lead t.cwd) = some content :=
      ((keeps_create created).content _ apart).trans (placed_of_read held).2
    rw [read_of_keepsDirs (keepsDirs_create created) held there] at made
    exact read_of_write made

theorem exists_read_of_copy {src dst : Path} (made : t.copy src dst = .ok next) :
    ∃ content, t.read src = .ok content := by
  unfold copy stat at made
  cases found : t.fileAt src with
  | ok file => exact ⟨file.2, by rw [Tree.read, found]; rfl⟩
  | error e =>
    rw [found] at made
    cases e <;> cases made

/-- What has just been created can be written to. -/
theorem exists_append_of_create (created : t.create p = .ok made) (bytes : Bytes) :
    ∃ next, made.append p bytes = .ok next := by
  obtain ⟨⟨loc, held⟩, aimed, rfl⟩ := exists_ok_of_map created
  exact ⟨_, append_put aimed [] bytes⟩

/-- A file can be moved to the place of another one. -/
theorem exists_rename {src dst : Path} {held : Bytes} (found : t.read src = .ok held)
    (placed : t.place dst = .ok (.entry parent name false)) (isDir : t.node? parent = some .dir)
    (free : t.node? (parent ++ [name]) ≠ some .dir) : ∃ next, t.rename src dst = .ok next := by
  obtain ⟨⟨source, _⟩, file, -⟩ := exists_ok_of_map found
  cases node : t.node? (parent ++ [name]) with
  | none => simp [rename, file, placed, isDir, node, bind, Except.bind]
  | some n => cases n with
    | dir => exact absurd node free
    | file content => simp [rename, file, placed, isDir, node, bind, Except.bind]

end Tree

/-- The operation takes no directory away. -/
def Op.Builds : Op → Prop
  | .removeAll _ => False
  | _ => True

theorem keepsDirs_settle {t : Tree} {result : Except IoFault Tree}
    (keeps : ∀ next, result = .ok next → t.KeepsDirs next) : t.KeepsDirs (settle t result).2 := by
  cases result with
  | ok next => exact keeps next rfl
  | error e => exact .refl t

theorem Op.keepsDirs {op : Op} {t : Tree} (builds : op.Builds) (sound : t.Sound) :
    t.KeepsDirs (op.apply t).2 := by
  cases op with
  | makeDirs p => exact Tree.keepsDirs_makeDirsAlong _ t
  | probe p => exact .refl t
  | openFile p => exact .refl t
  | read p => exact .refl t
  | touch p => exact keepsDirs_settle fun next made => Tree.keepsDirs_touch made
  | create p => exact keepsDirs_settle fun next made => Tree.keepsDirs_create made
  | append p bytes => exact keepsDirs_settle fun next made => Tree.keepsDirs_append made
  | copy src dst => exact keepsDirs_settle fun next made => Tree.keepsDirs_copy made
  | rename src dst => exact keepsDirs_settle fun next made => Tree.keepsDirs_rename sound made
  | removeAll p => exact builds.elim

namespace Job

variable {ε α β : Type}

/-- The job takes no directory away. -/
def Builds (job : Job ε α) : Prop := ∀ t : Tree, t.Sound → t.KeepsDirs (runOn job t).2

theorem Builds.keepsDirs {job : Job ε α} {t next : Tree} {result : Except ε α}
    (builds : Builds job) (sound : t.Sound) (ran : runOn job t = (result, next)) :
    t.KeepsDirs next := by
  have kept := builds t sound
  rwa [ran] at kept

theorem Looks.builds {job : Job ε α} (looks : Looks job) : Builds job := by
  intro t _
  rw [looks t]
  exact .refl t

theorem Builds.bind {job : Job ε α} {f : α → Job ε β} (first : Builds job)
    (rest : ∀ a, Builds (f a)) : Builds (job >>= f) := by
  intro t sound
  have begun := first t sound
  rw [runOn_bind]
  split
  · rename_i a next ran
    rw [ran] at begun
    exact begun.trans (rest a next (sound.of_keepsDirs begun))
  · rename_i e next ran
    rw [ran] at begun
    exact begun

theorem builds_attempt {op : Op} {fault : IoFault → ε} (builds : op.Builds) :
    Builds (attempt op fault) := by
  intro t sound
  rw [runOn_attempt]
  exact op.keepsDirs builds sound

end Job

end OtaAgent.Files
