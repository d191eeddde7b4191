import OtaAgent.Proofs.Files.Entering

set_option autoImplicit false

namespace OtaAgent.Files.Tree

variable {t c next : Tree} {p : Path} {at_ loc parent : Location} {n name : String}
  {names : List String} {slash after : Bool} {place : Place} {gone gone' : Location → Bool}
  {content : Bytes}

section Without

theorem Sound.without (sound : t.Sound) (gone : Location → Bool) : (t.without gone).Sound := by
  rcases sound with lost | here
  · exact .inl (cwdLost_without t gone lost)
  · cases away : gone t.cwd with
    | true => exact .inl (by simp [Tree.without, away])
    | false => exact .inr ((node?_without_of_not away).trans here)

/-- What is read by a path that goes through nothing that was taken away is still read. -/
theorem read_without (held : t.read p = .ok content)
    (spared : ∀ loc, p.Passes t.cwd loc → gone loc = false) :
    (t.without gone).read p = .ok content := by
  obtain ⟨⟨parent, name, placed⟩, there⟩ := placed_of_read held
  have here := place_entry placed
  have placed' : (t.without gone).place p = .ok (.entry parent name false) := by
    refine place_of_entered placed rfl (fun relative => ?_) fun loc enters isDir => ?_
    · have start : p.Passes t.cwd t.cwd := ⟨[], List.nil_prefix, by simp [Path.follow, relative]⟩
      simp [without, spared _ start]
    · rw [node?_without_of_not (spared loc enters.passes), isDir]
  refine read_of_placed placed' ?_
  rw [here, content?, node?_without_of_not (spared _ (p.passes_lead _))]
  exact there

end Without

section Entries

variable {dir : Path}

theorem walk_concat (isName : Path.IsName n)
    (walked : t.walk slash at_ (names ++ [n]) = .ok place) :
    ∃ parent, place = .entry parent n slash := by
  induction names generalizing at_ with
  | nil =>
    rw [List.nil_append, walk_name t _ _ isName] at walked
    split at walked
    · cases walked
    · cases walked
      exact ⟨at_, rfl⟩
  | cons name names ih =>
    rw [List.cons_append, walk_cons name (by simp)] at walked
    obtain ⟨here, -, walked⟩ := exists_ok_of_bind walked
    exact ih walked

theorem walkLost_concat (isName : Path.IsName n)
    (walked : t.walkLost slash (names ++ [n]) = .ok place) :
    ∃ parent, place = .entry parent n slash := by
  induction names with
  | nil =>
    rw [List.nil_append, walkLost, if_neg isName.notHere, if_neg isName.notUp] at walked
    cases walked
  | cons name names ih =>
    rw [List.cons_append, walkLost] at walked
    split at walked
    · exact ih walked
    · split at walked
      · exact walk_concat isName walked
      · cases walked

/-- A path that ends in a name leads to the entry of that name. -/
theorem exists_entry_of_join (isName : Path.IsName n) (placed : t.place (dir.join n) = .ok place) :
    ∃ parent, place = .entry parent n false := by
  have noSlash : ((dir.join n).text.toList.getLast? == some '/') = false := by
    simpa using Path.getLast?_join_ne dir isName
  rw [place_eq] at placed
  split at placed
  · cases placed
  · rw [Path.names_join dir isName, noSlash] at placed
    unfold resolve at placed
    split at placed
    · exact walk_concat isName placed
    · split at placed
      · exact walkLost_concat isName placed
      · exact walk_concat isName placed

theorem step_without {here : Location} (went : t.step at_ name = .ok here) :
    (t.without gone).step at_ name = .ok here ∨
      (t.without gone).step at_ name = .error .notFound := by
  by_cases spared : gone (at_ ++ [name]) = true
  · rcases step_cases went with ⟨same, rfl⟩ | ⟨up, rfl⟩ | ⟨notHere, notUp, rfl, -⟩
    · exact .inl (by rw [step, if_pos same])
    · exact .inl (by rw [step, if_neg (by simp [up]), if_pos up])
    · unfold step at went ⊢
      rw [if_neg notHere, if_neg notUp] at went ⊢
      split at went
      · cases went
      · rename_i fits
        right
        rw [if_neg fits, node?_without _ (by simp), if_pos spared]
  · rw [Bool.not_eq_true] at spared
    exact .inl (step_of_dirs (fun isDir => (node?_without_of_not spared).trans isDir) went)

theorem walk_without (walked : t.walk slash at_ names = .ok place) :
    (t.without gone).walk slash at_ names = .ok place ∨
      (t.without gone).walk slash at_ names = .error .notFound := by
  induction names generalizing at_ with
  | nil => exact .inl walked
  | cons name names ih =>
    cases names with
    | nil => exact .inl (by simpa only [walk] using walked)
    | cons other names =>
      rw [walk_cons name (by simp)] at walked ⊢
      obtain ⟨here, went, walked⟩ := exists_ok_of_bind walked
      have went' : (t.without gone).step at_ name = .ok here ∨ _ := step_without went
      rcases went' with still | missing
      · rw [still]
        exact ih walked
      · rw [missing]
        exact .inr rfl

theorem walkLost_without (walked : t.walkLost slash names = .ok place) :
    (t.without gone).walkLost slash names = .ok place ∨
      (t.without gone).walkLost slash names = .error .notFound := by
  induction names with
  | nil => exact .inl walked
  | cons name names ih =>
    rw [walkLost] at walked ⊢
    split at walked
    · rename_i here
      rw [if_pos here]
      exact ih walked
    · rename_i notHere
      rw [if_neg notHere]
      split at walked
      · rename_i up
        rw [if_pos up]
        exact walk_without walked
      · cases walked

/-- From a working directory that is taken away one gets to the same entries, or nowhere. -/
theorem walkLost_of_walk (isName : Path.IsName n)
    (walked : t.walk slash t.cwd (names ++ [n]) = .ok place) :
    (t.without gone).walkLost slash (names ++ [n]) = .ok place ∨
      (t.without gone).walkLost slash (names ++ [n]) = .error .notFound := by
  induction names with
  | nil =>
    right
    rw [List.nil_append, walkLost, if_neg isName.notHere, if_neg isName.notUp]
  | cons name names ih =>
    rw [List.cons_append, walk_cons name (by simp)] at walked
    obtain ⟨here, went, walked⟩ := exists_ok_of_bind walked
    rw [List.cons_append, walkLost]
    rcases step_cases went with ⟨same, rfl⟩ | ⟨up, rfl⟩ | ⟨notHere, notUp, -, -⟩
    · rw [if_pos same]
      exact ih walked
    · rw [if_neg (by simp [up]), if_pos up]
      exact walk_without walked
    · rw [if_neg notHere, if_neg notUp]
      exact .inr rfl

/-- When something is taken away, a path that ends in a name leads where it led or nowhere. -/
theorem place_join_without (isName : Path.IsName n) (placed : t.place (dir.join n) = .ok place) :
    (t.without gone).place (dir.join n) = .ok place ∨
      (t.without gone).place (dir.join n) = .error .notFound := by
  rw [place_eq] at placed ⊢
  split at placed
  · cases placed
  · rw [Path.names_join dir isName] at placed ⊢
    unfold resolve at placed ⊢
    split at placed
    · rename_i root
      rw [if_pos root]
      exact walk_without placed
    · rename_i relative
      rw [if_neg relative]
      split at placed
      · rename_i lost
        rw [if_pos (cwdLost_without t gone lost)]
        exact walkLost_without placed
      · split
        · exact walkLost_of_walk isName placed
        · exact walk_without placed

end Entries

section Clearing

variable {dir : Path}

/-- What becomes of a tree when what lies at `p` is cleared: the directory there is taken away, or
only what lay in it where its path went through that, or nothing was found. -/
inductive Cleared (p : Path) (t : Tree) : Tree → Prop
  | taken (isDir : t.isDir p = true) (reached : (t.eraseBelow (p.lead t.cwd)).isDir p = true) :
      Cleared p t ((t.eraseBelow (p.lead t.cwd)).erase (p.lead t.cwd))
  | emptied (isDir : t.isDir p = true)
      (unreached : (t.eraseBelow (p.lead t.cwd)).isDir p = false) :
      Cleared p t (t.eraseBelow (p.lead t.cwd))
  | absent (missing : t.isDir p = false) : Cleared p t t

/-- Nothing lies at `at_` or below, but for a directory at `at_` itself perhaps. -/
def Bare (t : Tree) (at_ : Location) : Prop :=
  ∀ loc, at_ <+: loc → t.node? loc = none ∨ loc = at_ ∧ t.node? loc = some .dir

/-- No file lies there. -/
theorem Bare.content? (bare : t.Bare at_) (inside : at_ <+: loc) :
    t.content? loc = none := by
  rcases bare loc inside with free | ⟨-, isDir⟩
  · rw [Tree.content?, free]
    rfl
  · rw [Tree.content?, isDir]
    rfl

theorem removeAll_of_isDir (isName : Path.IsName n) (isDir : t.isDir (dir.join n) = true) :
    ∃ c, t.removeAll (dir.join n) = (.ok (), c) ∧ Cleared (dir.join n) t c := by
  obtain ⟨place, placed, there⟩ := isDir_iff.mp isDir
  obtain ⟨parent, rfl⟩ := exists_entry_of_join isName placed
  have here := place_entry placed
  have found : t.dirAt (dir.join n) = .ok (some (parent ++ [n])) := by
    simp [dirAt, placed, show t.node? (parent ++ [n]) = some .dir from there]
  have still : (t.eraseBelow (parent ++ [n])).node? (parent ++ [n]) = some .dir := by
    rw [eraseBelow, node?_without_of_not (by simp)]
    exact there
  have places : (t.eraseBelow (parent ++ [n])).place (dir.join n) = .ok (.entry parent n false) ∨
      (t.eraseBelow (parent ++ [n])).place (dir.join n) = .error .notFound :=
    place_join_without isName placed
  simp only [removeAll, found, removeDir]
  rcases places with placed' | missing
  · refine ⟨(t.eraseBelow (parent ++ [n])).erase (parent ++ [n]), ?_, ?_⟩
    · rw [placed']
      simp only [still]
    · have reached : (t.eraseBelow (parent ++ [n])).isDir (dir.join n) = true :=
        isDir_iff.mpr ⟨_, placed', still⟩
      rw [here] at reached ⊢
      exact .taken isDir reached
  · refine ⟨t.eraseBelow (parent ++ [n]), ?_, ?_⟩
    · rw [missing]
    · have unreached : (t.eraseBelow (parent ++ [n])).isDir (dir.join n) = false := by
        rw [Tree.isDir, dirAt, missing]
      rw [here] at unreached ⊢
      exact .emptied isDir unreached

/-- A path that leads to no directory has nothing taken away. -/
theorem removeAll_of_not_isDir (isDir : t.isDir p = false) :
    ∃ e, t.dirAt p = .error e ∧ t.removeAll p = (.error e, t) := by
  cases found : t.dirAt p with
  | ok at_ =>
    rw [Tree.isDir, found] at isDir
    cases isDir
  | error e => exact ⟨e, rfl, by rw [removeAll, found]⟩

section Cleared

variable (cleared : Cleared p t c)

include cleared

theorem Cleared.exists_without : ∃ gone : Location → Bool, c = t.without gone ∧
    ∀ loc, gone loc = true → p.lead t.cwd <+: loc := by
  have below (loc : Location)
      (hit : ((p.lead t.cwd).isPrefixOf loc && loc != p.lead t.cwd) = true) :
      p.lead t.cwd <+: loc := by
    rw [Bool.and_eq_true] at hit
    exact List.isPrefixOf_iff_prefix.mp hit.1
  cases cleared with
  | taken isDir reached =>
    refine ⟨_, without_without t _ _, fun loc hit => ?_⟩
    rcases Bool.or_eq_true _ _ ▸ hit with hit | same
    · exact below loc hit
    · exact beq_iff_eq.mp same ▸ List.prefix_rfl
  | emptied isDir unreached => exact ⟨_, rfl, below⟩
  | absent missing => exact ⟨fun _ => false, (without_nothing t).symm, nofun⟩

theorem Cleared.cwd : c.cwd = t.cwd := by
  obtain ⟨gone, rfl, -⟩ := cleared.exists_without
  rfl

theorem Cleared.node? (outside : ¬ p.lead t.cwd <+: loc) : c.node? loc = t.node? loc := by
  obtain ⟨gone, rfl, inside⟩ := cleared.exists_without
  refine node?_without_of_not (Bool.eq_false_iff.mpr fun hit => outside (inside loc hit))

theorem Cleared.sound (sound : t.Sound) : c.Sound := by
  obtain ⟨gone, rfl, -⟩ := cleared.exists_without
  exact sound.without gone

end Cleared

theorem bare_eraseBelow (isDir : t.node? at_ = some .dir) : (t.eraseBelow at_).Bare at_ := by
  intro loc inside
  by_cases same : loc = at_
  · subst same
    exact .inr ⟨rfl, by rw [eraseBelow, node?_without_of_not (by simp), isDir]⟩
  · left
    have below : loc ≠ [] := by
      rintro rfl
      exact same (List.prefix_nil.mp inside).symm
    rw [eraseBelow, node?_without _ below]
    simp [same, List.isPrefixOf_iff_prefix.mpr inside]

theorem node?_of_isDir_join (isName : Path.IsName n) (isDir : t.isDir (dir.join n) = true) :
    t.node? ((dir.join n).lead t.cwd) = some .dir :=
  node?_of_isDir isDir ((Path.enters_join isName).mpr (.inr (Path.lead_join dir t.cwd isName)))

/-- Nothing is left of what could be found by the path, or was not there. -/
theorem Cleared.bare (isName : Path.IsName n) (cleared : Cleared (dir.join n) t c)
    (ready : t.isDir (dir.join n) = true ∨ t.Bare ((dir.join n).lead t.cwd)) :
    c.Bare ((dir.join n).lead t.cwd) := by
  cases cleared with
  | taken isDir reached =>
    intro loc inside
    have bare := bare_eraseBelow (node?_of_isDir_join isName isDir) loc inside
    rw [erase]
    by_cases same : loc = (dir.join n).lead t.cwd
    · left
      rw [node?_without _ (by rw [same, Path.lead_join dir t.cwd isName]; simp)]
      simp [same]
    · rw [node?_without_of_not (by simpa using same)]
      exact bare
  | emptied isDir unreached => exact bare_eraseBelow (node?_of_isDir_join isName isDir)
  | absent missing => exact ready.resolve_left (by simp [missing])

end Clearing

end OtaAgent.Files.Tree
