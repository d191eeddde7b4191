import OtaAgent.Proofs.Files.Clearing

set_option autoImplicit false

namespace OtaAgent.Files.Tree

variable {t other c c' s x m m' next last : Tree} {dir src dst : Path} {n k f : String}
  {gone : Location → Bool} {loc : Location} {content : Bytes} {place : Place}

section Same

structure Same (t other : Tree) : Prop where
  cwd : other.cwd = t.cwd
  cwdLost : other.cwdLost = t.cwdLost
  node : ∀ loc, other.node? loc = t.node? loc

theorem Same.alike (same : t.Same other) (sound : t.Sound) (held : Location → Prop) :
    Alike t.cwd held t other where
  cwd := rfl
  sound := sound
  there := ⟨same.cwd, same.cwdLost, fun loc isDir => (same.node loc).trans isDir⟩
  back := ⟨same.cwd.symm, same.cwdLost.symm, fun loc isDir => (same.node loc).symm.trans isDir⟩
  files loc _ := by rw [content?, content?, same.node loc]

/-- After a copy the file is there, and all else is as it was. -/
theorem node?_of_copy (apart : src.lead t.cwd ≠ dst.lead t.cwd) (found : t.read src = .ok content)
    (made : t.copy src dst = .ok next) (loc : Location) :
    next.node? loc = if loc = dst.lead t.cwd then some (.file content) else t.node? loc := by
  split
  · rename_i here
    obtain ⟨held, there, from_⟩ := content?_of_copy made
    have same : some content = some held := (placed_of_read found).2.symm.trans (from_ apart)
    rw [here, node?_of_content? there, Option.some.inj same]
  · rename_i elsewhere
    exact ((alters_copy made : t.Alters next _ fun _ => False).node loc elsewhere).resolve_right
      fun made => made.1

/-- A file can be copied in the same way where the same lies everywhere. -/
theorem Same.copy (same : t.Same other) (sound : t.Sound)
    (apart : src.lead t.cwd ≠ dst.lead t.cwd) (made : t.copy src dst = .ok next) :
    ∃ last, other.copy src dst = .ok last ∧ next.Same last := by
  have alike := same.alike sound fun _ => True
  obtain ⟨last, made', -⟩ := alike.copy trivial made
  obtain ⟨content, found⟩ := exists_read_of_copy made
  have found' : other.read src = .ok content := by
    refine read_of_keepsDirs alike.there found ?_
    rw [content?, same.node]
    exact (placed_of_read found).2
  refine ⟨last, made', ?_, ?_, fun loc => ?_⟩
  · rw [(keepsDirs_copy made').cwd, (keepsDirs_copy made).cwd, same.cwd]
  · rw [(keepsDirs_copy made').cwdLost, (keepsDirs_copy made).cwdLost, same.cwdLost]
  · rw [node?_of_copy (same.cwd ▸ apart) found' made', node?_of_copy apart found made, same.node,
      same.cwd]

end Same

section Below

variable (isName : Path.IsName n) (isLower : Path.IsName k)

include isName

theorem isDir_of_makeDirs_join (made : t.makeDirs (dir.join n) = (.ok (), s)) :
    s.isDir (dir.join n) = true :=
  (made_of_makeDirs made).resolve_left (Path.text_join_ne dir isName)

include isLower

/-- A directory that a path leads through is there. -/
theorem isDir_of_place_join (placed : t.place ((dir.join n).join k) = .ok place) :
    t.isDir (dir.join n) = true :=
  (made_of_parent? placed (Path.parent?_join dir isName isLower)).resolve_left
    (Path.text_join_ne dir isName)

/-- Where a directory can be made with all above it, so can the one above it. -/
theorem exists_makeDirs_of_join (made : t.makeDirs ((dir.join n).join k) = (.ok (), m)) :
    ∃ s, t.makeDirs (dir.join n) = (.ok (), s) := by
  have named := Path.text_join_ne (dir.join n) isLower
  by_cases missing : t.makeDir ((dir.join n).join k) = .error .notFound
  · obtain ⟨s, above, -⟩ :=
      (makeDirs_iff_of_missing named missing (Path.parent?_join dir isName isLower)).mp made
    exact ⟨s, above⟩
  · rw [makeDirs_of_ne named missing] at made
    obtain ⟨place, placed⟩ := exists_place_of_makeLast made
    exact ⟨t, makeDirs_of_made (.inr (isDir_of_place_join isName isLower placed))⟩

/-- Where a directory can be made, it is there after one in it was to be made, unless nothing was
made at all. -/
theorem isDir_or_eq_of_makeDirs_join (made : t.makeDirs (dir.join n) = (.ok (), s)) :
    (t.makeDirs ((dir.join n).join k)).2.isDir (dir.join n) = true ∨
      (t.makeDirs ((dir.join n).join k)).2 = t := by
  have named := Path.text_join_ne (dir.join n) isLower
  have last (x : Tree) : (x.makeLast ((dir.join n).join k)).2.isDir (dir.join n) = true ∨
      (x.makeLast ((dir.join n).join k)).2 = x := by
    cases ran : x.makeLast ((dir.join n).join k) with
    | mk result y =>
      cases result with
      | error e => exact .inr (eq_of_makeLast_error ran)
      | ok _ =>
        obtain ⟨place, placed, -⟩ := isDir_iff.mp (isDir_of_makeLast ran)
        exact .inl (isDir_of_place_join isName isLower placed)
  by_cases missing : t.makeDir ((dir.join n).join k) = .error .notFound
  · left
    rw [makeDirs, Path.ancestry_join isName isLower, makeDirsAlong_of_missing named missing,
      show makeDirsAlong (dir.join n).ancestry t = (.ok (), s) from made]
    rcases last s with isDir | same
    · exact isDir
    · dsimp only
      rw [same]
      exact isDir_of_makeDirs_join isName made
  · rw [makeDirs_of_ne named missing]
    exact last t

end Below

section Renewing

/-- The directory `p` has been cleared, which leaves `c`, and can be made again, which gives `s`.
Where the directory itself is still there, its path went through what lay in it. -/
structure Renewed (p : Path) (c s : Tree) : Prop where
  sound : c.Sound
  bare : c.Bare (p.lead c.cwd)
  unreached : c.node? (p.lead c.cwd) = some .dir → c.isDir p = false ∧
    ∀ loc, p.Enters c.cwd loc → ¬ p.lead c.cwd <+: loc → c.node? loc = some .dir
  made : c.makeDirs p = (.ok (), s)

/-- `x` is `s` but for what lies in the directory `p`, and that can be cleared if anything does. -/
structure Steady (p : Path) (c s x : Tree) : Prop where
  cwd : x.cwd = c.cwd
  cwdLost : x.cwdLost = c.cwdLost
  node : ∀ loc, ¬ p.lead c.cwd <+: loc → x.node? loc = s.node? loc
  top : c.node? (p.lead c.cwd) = some .dir → x.node? (p.lead c.cwd) = some .dir
  ready : x.isDir p = true ∨ x.Bare (p.lead c.cwd)

/-- A directory that can be made is missing, if it is not there and no file is. -/
theorem missing_of_makeDirs {e : IoFault} (isName : Path.IsName n)
    (made : t.makeDirs (dir.join n) = (.ok (), s)) (refused : t.dirAt (dir.join n) = .error e)
    (bare : t.Bare ((dir.join n).lead t.cwd)) : e = .notFound := by
  have named := Path.text_join_ne dir isName
  unfold dirAt at refused
  cases placed : t.place (dir.join n) with
  | error e' =>
    rw [placed] at refused
    cases refused
    refine Decidable.byContradiction fun other => ?_
    have ends : t.makeDir (dir.join n) ≠ .error .notFound := by
      rw [makeDir_of_error placed]
      exact fun same => other (Except.error.inj same)
    rw [makeDirs_of_ne named ends, makeLast_of_error placed] at made
    cases made
  | ok place =>
    obtain ⟨parent, rfl⟩ := exists_entry_of_join isName placed
    have here := place_entry placed
    simp only [placed, here] at refused
    rcases bare _ List.prefix_rfl with free | ⟨-, isDir⟩
    · rw [free] at refused
      exact (Except.error.inj refused).symm
    · rw [isDir] at refused
      cases refused

variable (isName : Path.IsName n) (isLower : Path.IsName k) (isFile : Path.IsName f)
  (renewed : Renewed (dir.join n) c s) (steady : Steady (dir.join n) c s x)

include renewed

theorem Renewed.cwd_not_below (there : c.cwdLost = false)
    (inside : (dir.join n).lead c.cwd <+: c.cwd) :
    c.cwd = (dir.join n).lead c.cwd ∧ c.node? ((dir.join n).lead c.cwd) = some .dir := by
  have isDir : c.node? c.cwd = some .dir := renewed.sound.resolve_left (by simp [there])
  rcases renewed.bare _ inside with free | ⟨same, isDir'⟩
  · rw [free] at isDir
    cases isDir
  · exact ⟨same, same ▸ isDir'⟩

include steady

theorem Steady.cwdLost_eraseBelow :
    (x.eraseBelow ((dir.join n).lead c.cwd)).cwdLost = c.cwdLost := by
  rw [← steady.cwdLost]
  refine cwdLost_without_of_not fun there => Bool.eq_false_iff.mpr fun hit => ?_
  rw [steady.cwdLost] at there
  rw [steady.cwd, Bool.and_eq_true] at hit
  have same := (renewed.cwd_not_below there (List.isPrefixOf_iff_prefix.mp hit.1)).1
  simp [← same] at hit

/-- What could not be reached in the directory once it had been cleared cannot be when it is cleared
again. -/
theorem Steady.unreached (isName : Path.IsName n)
    (isDir : x.node? ((dir.join n).lead c.cwd) = some .dir)
    (top : c.node? ((dir.join n).lead c.cwd) = some .dir) :
    (x.eraseBelow ((dir.join n).lead c.cwd)).isDir (dir.join n) = false := by
  obtain ⟨unreached, outside⟩ := renewed.unreached top
  refine Bool.eq_false_iff.mpr fun reached => ?_
  obtain ⟨place, placed, -⟩ := isDir_iff.mp reached
  obtain ⟨parent, rfl⟩ := exists_entry_of_join isName placed
  have here := place_entry placed
  have cwd : (x.eraseBelow ((dir.join n).lead c.cwd)).cwd = c.cwd := steady.cwd
  have placed' : c.place (dir.join n) = .ok (.entry parent n false) := by
    refine place_of_entered placed cwd.symm
      (fun _ => (Steady.cwdLost_eraseBelow renewed steady).symm) fun loc enters found => ?_
    rw [cwd] at enters
    by_cases inside : (dir.join n).lead c.cwd <+: loc
    · rcases bare_eraseBelow isDir loc inside with free | ⟨rfl, -⟩
      · rw [free] at found
        cases found
      · exact top
    · exact outside loc enters inside
  rw [cwd] at here
  have isDir' : c.isDir (dir.join n) = true := isDir_iff.mpr ⟨_, placed', by rwa [HasDir, here]⟩
  rw [unreached] at isDir'
  cases isDir'

theorem Steady.keepsAll (bare : x.Bare ((dir.join n).lead c.cwd)) :
    c.KeepsAll x fun _ => False := by
  have keeps := keepsAll_of_makeDirs renewed.made fun _ => False
  refine ⟨⟨steady.cwd, steady.cwdLost, fun loc isDir => ?_⟩, fun loc _ => ?_⟩
  · by_cases inside : (dir.join n).lead c.cwd <+: loc
    · rcases renewed.bare loc inside with free | ⟨rfl, top⟩
      · rw [free] at isDir
        cases isDir
      · exact steady.top top
    · rw [steady.node loc inside]
      exact keeps.dirs loc isDir
  · by_cases inside : (dir.join n).lead c.cwd <+: loc
    · rw [bare.content? inside, renewed.bare.content? inside]
    · rw [← keeps.content loc id, content?, content?, steady.node loc inside]

include isName

theorem Steady.of_cleared (cleared : Cleared (dir.join n) x c')
    (isDir : x.isDir (dir.join n) = true) :
    Steady (dir.join n) c s c' ∧ c'.Bare ((dir.join n).lead c.cwd) := by
  have bare := cleared.bare isName (.inl isDir)
  have there := node?_of_isDir_join isName isDir
  have outside (loc : Location) : ¬ (dir.join n).lead x.cwd <+: loc → c'.node? loc = x.node? loc :=
    cleared.node?
  rw [steady.cwd] at bare there outside
  refine ⟨⟨cleared.cwd.trans steady.cwd, ?_, fun loc away => (outside loc away).trans
    (steady.node loc away), ?_, .inr bare⟩, bare⟩
  · -- nothing but the directory itself could be the working directory, and if it was, it was out of
    -- reach once and is now
    cases cleared with
    | absent missing =>
      rw [isDir] at missing
      cases missing
    | emptied _ _ => rw [steady.cwd, Steady.cwdLost_eraseBelow renewed steady]
    | taken _ reached =>
      rw [steady.cwd] at reached ⊢
      have cwd : (x.eraseBelow ((dir.join n).lead c.cwd)).cwd = c.cwd := steady.cwd
      have before := Steady.cwdLost_eraseBelow renewed steady
      rw [erase, cwdLost_without_of_not, before]
      intro kept
      rw [before] at kept
      rw [cwd, beq_eq_false_iff_ne]
      intro same
      have top := (renewed.cwd_not_below kept (same ▸ List.prefix_rfl)).2
      rw [steady.unreached renewed isName there top] at reached
      cases reached
  · intro top
    cases cleared with
    | absent missing => exact there
    | emptied _ _ =>
      rw [steady.cwd, eraseBelow, node?_without_of_not (by simp)]
      exact there
    | taken _ reached =>
      rw [steady.cwd, steady.unreached renewed isName there top] at reached
      cases reached

/-- The directory can be cleared again, and nothing is left in it. -/
theorem Steady.removeAll : ∃ c', (x.removeAll (dir.join n) = (.ok (), c') ∨
      x.removeAll (dir.join n) = (.error .notFound, c')) ∧
    Steady (dir.join n) c s c' ∧ c'.Bare ((dir.join n).lead c.cwd) := by
  cases isDir : x.isDir (dir.join n) with
  | true =>
    obtain ⟨c', removed, cleared⟩ := removeAll_of_isDir isName isDir
    exact ⟨c', .inl removed, steady.of_cleared isName renewed cleared isDir⟩
  | false =>
    have bare := steady.ready.resolve_left (by simp [isDir])
    obtain ⟨e, refused, removed⟩ := removeAll_of_not_isDir isDir
    obtain ⟨last, made⟩ := makeDirs_of_keeps renewed.made (steady.keepsAll renewed bare)
    have missing := missing_of_makeDirs isName made refused (steady.cwd ▸ bare)
    exact ⟨x, .inr (missing ▸ removed), steady, bare⟩

include isLower

/-- To make a directory in it, or to fail at that, changes nothing outside. -/
theorem Steady.makeDirs :
    Steady (dir.join n) c s (x.makeDirs ((dir.join n).join k)).2 := by
  have keeps := keepsAll_makeDirs ((dir.join n).join k) x fun _ => False
  refine ⟨keeps.cwd.trans steady.cwd, keeps.cwdLost.trans steady.cwdLost, fun loc outside => ?_,
    fun top => keeps.dirs _ (steady.top top), ?_⟩
  · rw [← steady.node loc outside]
    have alters : x.Alters _ (fun _ => False) _ := alters_makeDirs ((dir.join n).join k) x
    refine (alters.node loc id).resolve_right fun ⟨enters, free, _⟩ => ?_
    rcases (Path.enters_join isLower).mp enters with above | rfl
    · rw [steady.cwd] at above
      rw [steady.node loc outside, node?_of_makeDirs renewed.made above] at free
      cases free
    · rw [steady.cwd] at outside
      exact outside (List.prefix_append _ _)
  · rcases steady.ready with isDir | bare
    · exact .inl (isDir_of_keepsDirs keeps.toKeepsDirs isDir)
    · -- what could be made from `c` can be made from `x`, so a failure comes before or after that
      obtain ⟨last, made⟩ := makeDirs_of_keeps renewed.made (steady.keepsAll renewed bare)
      refine (isDir_or_eq_of_makeDirs_join isName isLower made).imp_right fun same => ?_
      rw [same]
      exact bare

include isFile

omit renewed in
/-- Nor does a copy that is put there. -/
theorem Steady.copy (made : x.copy src (((dir.join n).join k).join f) = .ok next) :
    Steady (dir.join n) c s next := by
  have keeps := keepsDirs_copy made
  obtain ⟨_, _, _, -, created, -⟩ := copy_iff.mp made
  obtain ⟨⟨_, _⟩, aimed, -⟩ := exists_ok_of_map created
  obtain ⟨parent, name, placed, -⟩ := placed_of_target aimed
  obtain ⟨place, placed', -⟩ := isDir_iff.mp (isDir_of_place_join isLower isFile placed)
  refine ⟨keeps.cwd.trans steady.cwd, keeps.cwdLost.trans steady.cwdLost, fun loc outside => ?_,
    fun top => keeps.dirs _ (steady.top top),
    .inl (isDir_of_keepsDirs keeps (isDir_of_place_join isName isLower placed'))⟩
  rw [← steady.node loc outside]
  have alters : x.Alters next _ fun _ => False := alters_copy made
  refine (alters.node loc fun there => outside ?_).resolve_right fun made => made.1
  rw [show loc = _ from there, Path.lead_join _ _ isFile, Path.lead_join _ _ isLower, steady.cwd,
    List.append_assoc]
  exact List.prefix_append _ _

end Renewing

section Renewed

/-- What is left of a directory that was cleared, if it can be made again. -/
theorem Cleared.renewed (cleared : Cleared (dir.join n) t c) (isName : Path.IsName n)
    (sound : t.Sound) (isDir : t.isDir (dir.join n) = true)
    (made : c.makeDirs (dir.join n) = (.ok (), s)) : Renewed (dir.join n) c s where
  sound := cleared.sound sound
  bare := by
    rw [cleared.cwd]
    exact cleared.bare isName (.inl isDir)
  unreached := by
    have outside (loc : Location) : ¬ (dir.join n).lead t.cwd <+: loc → c.node? loc = t.node? loc :=
      cleared.node?
    rw [cleared.cwd]
    intro top
    cases cleared with
    | taken _ _ =>
      rw [erase, node?_without _ (by rw [Path.lead_join dir t.cwd isName]; simp)] at top
      simp at top
    | emptied _ unreached =>
      exact ⟨unreached, fun loc enters away =>
        (outside loc away).trans (node?_of_isDir isDir enters)⟩
    | absent missing =>
      rw [isDir] at missing
      cases missing
  made := made

/-- What is missing can be used like what was cleared. -/
theorem renewed_of_free (sound : t.Sound) (made : t.makeDirs dir = (.ok (), s))
    (free : ∀ loc, dir.lead t.cwd <+: loc → t.node? loc = none) : Renewed dir t s where
  sound := sound
  bare loc inside := .inl (free loc inside)
  unreached top := by
    rw [free _ List.prefix_rfl] at top
    cases top
  made := made

theorem not_present_of_missing (missing : t.dirAt dir = .error .notFound) :
    t.present dir = false := by
  unfold dirAt at missing
  unfold present stat fileAt
  cases placed : t.place dir with
  | error e =>
    rw [placed] at missing
    cases missing
    rfl
  | ok place =>
    rw [placed] at missing
    cases place with
    | directory at_ => cases missing
    | lost => cases missing
    | entry parent name slash =>
      dsimp only at missing ⊢
      cases node : t.node? (parent ++ [name]) with
      | none => rfl
      | some n =>
        rw [node] at missing
        cases n <;> cases missing

variable (isName : Path.IsName n) (isLower : Path.IsName k)
  (renewed : Renewed (dir.join n) c s) (made : c.makeDirs ((dir.join n).join k) = (.ok (), m))

include isName isLower renewed made

/-- With a directory made in it, the directory is as it is to stay. -/
theorem Renewed.steady_of_makeDirs : Steady (dir.join n) c s m := by
  have keeps := keepsAll_of_makeDirs made fun _ => False
  obtain ⟨place, placed, -⟩ := isDir_iff.mp (isDir_of_makeDirs_join isLower made)
  refine ⟨keeps.cwd, keeps.cwdLost, fun loc outside => ?_, keeps.dirs _,
    .inl (isDir_of_place_join isName isLower placed)⟩
  have further : ¬ loc = (dir.join n).lead c.cwd ++ [k] := by
    rintro rfl
    exact outside (List.prefix_append _ _)
  by_cases enters : (dir.join n).Enters c.cwd loc
  · rw [node?_of_makeDirs renewed.made enters,
      node?_of_makeDirs made ((Path.enters_join isLower).mpr (.inl enters))]
  · have before := node?_makeDirs_of_not_enters enters
    have after := node?_makeDirs_of_not_enters fun enters' =>
      ((Path.enters_join isLower).mp enters').elim enters further
    rw [renewed.made] at before
    rw [made] at after
    rw [before, after]

/-- What is made in the directory after it has been cleared again is what was made there first. -/
theorem Steady.same (steady : Steady (dir.join n) c s x) (bare : x.Bare ((dir.join n).lead c.cwd))
    (again : x.makeDirs ((dir.join n).join k) = (.ok (), m')) : m.Same m' := by
  have keeps := keepsAll_of_makeDirs made fun _ => False
  have keeps' := keepsAll_of_makeDirs again fun _ => False
  have first := renewed.steady_of_makeDirs isName isLower made
  have second : Steady (dir.join n) c s m' := by
    have second := steady.makeDirs isName isLower renewed
    rwa [again] at second
  refine ⟨?_, ?_, fun loc => ?_⟩
  · rw [second.cwd, first.cwd]
  · rw [second.cwdLost, first.cwdLost]
  · by_cases inside : (dir.join n).lead c.cwd <+: loc
    · by_cases enters : ((dir.join n).join k).Enters c.cwd loc
      · rw [node?_of_makeDirs made enters, node?_of_makeDirs again (steady.cwd.symm ▸ enters)]
      · have top : loc ≠ (dir.join n).lead c.cwd := by
          rintro rfl
          exact enters ((Path.enters_join isLower).mpr
            (.inl ((Path.enters_join isName).mpr (.inr (Path.lead_join dir c.cwd isName)))))
        have before := node?_makeDirs_of_not_enters enters
        have after := node?_makeDirs_of_not_enters (t := x) (steady.cwd.symm ▸ enters)
        rw [made] at before
        rw [again] at after
        rw [before, after, (renewed.bare loc inside).resolve_right fun there => top there.1,
          (bare loc inside).resolve_right fun there => top there.1]
    · rw [second.node loc inside, first.node loc inside]

end Renewed

end OtaAgent.Files.Tree
