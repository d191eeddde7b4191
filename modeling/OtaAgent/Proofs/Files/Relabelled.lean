import OtaAgent.Proofs.Files.Labels

set_option autoImplicit false

namespace OtaAgent

namespace Files

/-- Other names for what lies in the directories, and what the files may hold instead. -/
structure Relabelling extends Labels where
  /-- What a file may hold in the place of another content. -/
  held : Location → Bytes → Bytes → Prop
  held_nil (at_ : Location) : held at_ [] []

/-- Both are directories, or both are files, which hold what `held` relates. -/
inductive Node.Matches (held : Bytes → Bytes → Prop) : Node → Node → Prop
  | dir : Node.Matches held .dir .dir
  | file {content other : Bytes} (holds : held content other) :
      Node.Matches held (.file content) (.file other)

namespace Relabelling

open Labels

variable (R : Relabelling)

/-- `t'` has the shape of `t`. -/
structure Trees (t t' : Tree) : Prop where
  cwd : t.cwd = R.cwd
  cwd' : t'.cwd = R.loc R.cwd
  cwdLost : t'.cwdLost = t.cwdLost
  node (at_ : Location) :
    Option.Rel (Node.Matches (R.held at_)) (t.node? at_) (t'.node? (R.loc at_))

section Walks

variable {R} {t t' : Tree} {at_ : Location} {n : String} {ns : List String} {slash : Bool}

theorem step_relabelled (trees : R.Trees t t') (at_ : Location) (n : String) :
    t'.step (R.loc at_) (R.label at_ n) = (t.step at_ n).map R.loc := by
  unfold Tree.step
  simp only [label_eq_here, label_eq_up, R.label_fits]
  split
  · rfl
  · split
    · simp [Except.map]
    · split
      · rfl
      · have node := trees.node (at_ ++ [n])
        rw [loc_concat] at node
        generalize t.node? (at_ ++ [n]) = found at node ⊢
        generalize t'.node? (R.loc at_ ++ [R.label at_ n]) = found' at node ⊢
        cases node with
        | none => rfl
        | some same => cases same <;> simp [Except.map]

theorem follow_of_step {next : Location} (went : t.step at_ n = .ok next) :
    next = Path.follow at_ [n] := by
  unfold Tree.step at went
  simp only [Path.follow]
  split at went
  · rename_i here
    rw [if_pos here]
    exact (Except.ok.inj went).symm
  · rename_i notHere
    rw [if_neg notHere]
    split at went
    · rename_i up
      rw [if_pos up]
      exact (Except.ok.inj went).symm
    · rename_i notUp
      rw [if_neg notUp]
      split at went
      · cases went
      · split at went
        · exact (Except.ok.inj went).symm
        · cases went
        · cases went

theorem walk_relabelled (trees : R.Trees t t') (at_ : Location) (ns : List String) :
    t'.walk slash (R.loc at_) (R.names at_ ns) = (t.walk slash at_ ns).map R.place := by
  induction ns generalizing at_ with
  | nil => rfl
  | cons n ns ih =>
    cases ns with
    | nil =>
      simp only [names, Tree.walk, label_eq_here, label_eq_up, R.label_fits]
      split
      · rfl
      · split
        · simp [Except.map, place]
        · split <;> rfl
    | cons m ns =>
      rw [names, Tree.walk_cons _ (by simp [names]), Tree.walk_cons _ (by simp),
        step_relabelled trees]
      cases went : t.step at_ n with
      | error e => rfl
      | ok next =>
        obtain rfl := follow_of_step went
        exact ih _

theorem walkLost_relabelled (trees : R.Trees t t') (ns : List String) :
    t'.walkLost slash (R.names R.cwd ns) = (t.walkLost slash ns).map R.place := by
  induction ns with
  | nil => rfl
  | cons n ns ih =>
    simp only [names, Tree.walkLost, label_eq_here, label_eq_up, Path.follow]
    split
    · exact ih
    · split
      · rw [trees.cwd, trees.cwd', ← loc_dropLast]
        exact walk_relabelled trees _ _
      · rfl

/-- A path leads to the place in the other tree where its counterpart leads. -/
theorem place_relabelled (trees : R.Trees t t') {p p' : Path} (paths : R.Paths p p') :
    t'.place p' = (t.place p).map R.place := by
  rw [Tree.place_eq, Tree.place_eq, paths.fault]
  cases Tree.textFault? p with
  | some e => rfl
  | none =>
    have names := paths.names
    dsimp only
    unfold Tree.resolve
    rw [paths.isAbsolute, paths.slash, trees.cwdLost, names, start]
    split
    · exact walk_relabelled trees [] _
    · split
      · exact walkLost_relabelled trees _
      · rw [trees.cwd, trees.cwd']
        exact walk_relabelled trees _ _

end Walks

section Looks

variable {R} {t t' : Tree} {p p' : Path}

/-- The entry of a name in a directory, and what there may be in the other tree. -/
theorem Trees.entry (trees : R.Trees t t') (parent : Location) (name : String) :
    Option.Rel (Node.Matches (R.held (parent ++ [name]))) (t.node? (parent ++ [name]))
      (t'.node? (R.loc parent ++ [R.label parent name])) := by
  rw [← loc_concat]
  exact trees.node _

theorem Trees.isDir_iff (trees : R.Trees t t') (at_ : Location) :
    t'.node? (R.loc at_) = some .dir ↔ t.node? at_ = some .dir := by
  have node := trees.node at_
  generalize t.node? at_ = found at node ⊢
  generalize t'.node? (R.loc at_) = found' at node ⊢
  cases node with
  | none => simp
  | some same => cases same <;> simp

theorem fileAt_relabelled (trees : R.Trees t t') (paths : R.Paths p p') :
    Parallel Eq (fun file file' => file.1 = p.lead R.cwd ∧ file'.1 = R.loc file.1 ∧
      R.held file.1 file.2 file'.2) (t.fileAt p) (t'.fileAt p') := by
  unfold Tree.fileAt
  rw [place_relabelled trees paths]
  cases placed : t.place p with
  | error e => exact .error rfl
  | ok at_ =>
    cases at_ with
    | directory at_ => exact .error rfl
    | lost => exact .error rfl
    | entry parent name slash =>
      have node := trees.entry parent name
      have lead := trees.cwd ▸ Tree.place_entry placed
      simp only [Except.map, place]
      generalize t.node? (parent ++ [name]) = found at node ⊢
      generalize t'.node? (R.loc parent ++ [R.label parent name]) = found' at node ⊢
      cases node with
      | none => exact .error rfl
      | some same =>
        cases same with
        | dir => exact .error rfl
        | file holds =>
          cases slash with
          | true => exact .error rfl
          | false => exact .ok ⟨lead, (loc_concat parent name).symm, holds⟩

theorem read_relabelled (trees : R.Trees t t') (paths : R.Paths p p') :
    Parallel Eq (R.held (p.lead R.cwd)) (t.read p) (t'.read p') := by
  apply (fileAt_relabelled trees paths).map
  rintro ⟨_, content⟩ file' ⟨rfl, -, holds⟩
  exact holds

theorem stat_relabelled (trees : R.Trees t t') (paths : R.Paths p p') :
    Parallel Eq (Node.Matches (R.held (p.lead R.cwd))) (t.stat p) (t'.stat p') := by
  unfold Tree.stat
  have file := fileAt_relabelled trees paths
  generalize t.fileAt p = found at file ⊢
  generalize t'.fileAt p' = found' at file ⊢
  cases file with
  | ok same =>
    obtain ⟨here, -, holds⟩ := same
    rw [here] at holds
    exact .ok (.file holds)
  | error faults =>
    subst faults
    rename_i e
    cases e <;> first | exact .ok .dir | exact .error rfl

theorem present_relabelled (trees : R.Trees t t') (paths : R.Paths p p') :
    t'.present p' = t.present p := by
  unfold Tree.present
  have node := stat_relabelled trees paths
  generalize t.stat p = found at node ⊢
  generalize t'.stat p' = found' at node ⊢
  cases node <;> rfl

theorem isDir_relabelled (trees : R.Trees t t') (paths : R.Paths p p') :
    t'.isDir p' = t.isDir p := by
  unfold Tree.isDir Tree.dirAt
  rw [place_relabelled trees paths]
  cases t.place p with
  | error e => rfl
  | ok at_ =>
    cases at_ with
    | directory at_ => rfl
    | lost => rfl
    | entry parent name slash =>
      have node := trees.entry parent name
      simp only [Except.map, place]
      generalize t.node? (parent ++ [name]) = found at node ⊢
      generalize t'.node? (R.loc parent ++ [R.label parent name]) = found' at node ⊢
      cases node with
      | none => rfl
      | some same => cases same <;> rfl

/-- What `p` leads to can be written in both trees, or in neither. -/
theorem target_relabelled (trees : R.Trees t t') (paths : R.Paths p p') :
    Parallel Eq (fun file file' => file.1 = p.lead R.cwd ∧ file.1 ≠ [] ∧ file'.1 = R.loc file.1 ∧
      Option.Rel (R.held file.1) file.2 file'.2) (t.target p) (t'.target p') := by
  unfold Tree.target
  rw [place_relabelled trees paths]
  cases placed : t.place p with
  | error e => exact .error rfl
  | ok at_ =>
    cases at_ with
    | directory at_ => exact .error rfl
    | lost => exact .error rfl
    | entry parent name slash =>
      have node := trees.entry parent name
      have lead := trees.cwd ▸ Tree.place_entry placed
      have below : parent ++ [name] ≠ [] := by simp
      have there := (loc_concat (R := R.toLabels) parent name).symm
      simp only [Except.map, place, ne_eq, trees.isDir_iff]
      generalize t.node? (parent ++ [name]) = found at node ⊢
      generalize t'.node? (R.loc parent ++ [R.label parent name]) = found' at node ⊢
      split
      · exact .error rfl
      · split
        · exact .error rfl
        · cases node with
          | none => exact .ok ⟨lead, below, there, .none⟩
          | some same =>
            cases same with
            | dir => exact .error rfl
            | file holds => exact .ok ⟨lead, below, there, .some holds⟩

end Looks

section Changes

variable {R} {t t' : Tree} {p p' src src' dst dst' : Path} {at_ : Location} {n n' : Node}
  {bytes bytes' : Bytes}

theorem Trees.put (trees : R.Trees t t') (below : at_ ≠ [])
    (matched : Node.Matches (R.held at_) n n') :
    R.Trees (t.put at_ n) (t'.put (R.loc at_) n') where
  cwd := trees.cwd
  cwd' := trees.cwd'
  cwdLost := trees.cwdLost
  node other := by
    rw [Tree.node?_put _ _ _ _ below, Tree.node?_put _ _ _ _ (loc_eq_nil.not.mpr below)]
    by_cases same : other = at_
    · subst same
      simpa using matched
    · rw [if_neg same, if_neg (loc_injective.ne same)]
      exact trees.node other

theorem Trees.erase (trees : R.Trees t t') (at_ : Location) :
    R.Trees (t.erase at_) (t'.erase (R.loc at_)) where
  cwd := trees.cwd
  cwd' := trees.cwd'
  cwdLost := by
    have same : (t'.cwd == R.loc at_) = (t.cwd == at_) := by
      rw [trees.cwd, trees.cwd']
      exact Bool.eq_iff_iff.mpr (by simp [loc_injective.eq_iff])
    simp only [Tree.erase, Tree.without, trees.cwdLost, same]
  node other := by
    by_cases top : other = []
    · subst top
      exact .some .dir
    · have goes : (R.loc other == R.loc at_) = (other == at_) :=
        Bool.eq_iff_iff.mpr (by simp [loc_injective.eq_iff])
      rw [Tree.erase, Tree.erase, Tree.node?_without _ top,
        Tree.node?_without _ (loc_eq_nil.not.mpr top), goes]
      split
      · exact .none
      · exact trees.node other

theorem create_relabelled (trees : R.Trees t t') (paths : R.Paths p p') :
    Parallel Eq R.Trees (t.create p) (t'.create p') := by
  apply (target_relabelled trees paths).map
  rintro ⟨at_, _⟩ ⟨_, _⟩ ⟨-, below, rfl, -⟩
  exact trees.put below (.file (R.held_nil at_))

theorem touch_relabelled (trees : R.Trees t t') (paths : R.Paths p p') :
    Parallel Eq R.Trees (t.touch p) (t'.touch p') := by
  apply (target_relabelled trees paths).map
  rintro ⟨at_, _⟩ ⟨_, _⟩ ⟨-, below, rfl, content⟩
  cases content with
  | none => exact trees.put below (.file (R.held_nil at_))
  | some holds => exact trees.put below (.file holds)

theorem write_relabelled (trees : R.Trees t t') (paths : R.Paths p p')
    (holds : R.held (p.lead R.cwd) bytes bytes') :
    Parallel Eq R.Trees (t.write p bytes) (t'.write p' bytes') := by
  apply (target_relabelled trees paths).map
  rintro ⟨_, _⟩ ⟨_, _⟩ ⟨rfl, below, rfl, -⟩
  exact trees.put below (.file holds)

theorem makeDir_relabelled (trees : R.Trees t t') (paths : R.Paths p p') :
    Parallel Eq R.Trees (t.makeDir p) (t'.makeDir p') := by
  unfold Tree.makeDir
  rw [place_relabelled trees paths]
  cases t.place p with
  | error e => exact .error rfl
  | ok at_ =>
    cases at_ with
    | directory at_ => exact .error rfl
    | lost => exact .error rfl
    | entry parent name slash =>
      have node := trees.entry parent name
      have made : R.Trees (t.put (parent ++ [name]) .dir)
          (t'.put (R.loc parent ++ [R.label parent name]) .dir) := by
        rw [← loc_concat]
        exact trees.put (by simp) .dir
      simp only [Except.map, place, ne_eq, trees.isDir_iff]
      generalize t.node? (parent ++ [name]) = found at node ⊢
      generalize t'.node? (R.loc parent ++ [R.label parent name]) = found' at node ⊢
      split
      · exact .error rfl
      · cases node with
        | none => exact .ok made
        | some => exact .error rfl

/-- The directories along paths that correspond are made, or cannot be made, in both trees. -/
theorem makeDirsAlong_relabelled {ps ps' : List Path} (paths : List.Forall₂ R.Paths ps ps')
    (trees : R.Trees t t') :
    (Tree.makeDirsAlong ps' t').1 = (Tree.makeDirsAlong ps t).1 ∧
      R.Trees (Tree.makeDirsAlong ps t).2 (Tree.makeDirsAlong ps' t').2 := by
  induction paths generalizing t t' with
  | nil => exact ⟨rfl, trees⟩
  | @cons p p' up up' first rest ih =>
    have settled {s s' : Tree} (trees : R.Trees s s') (e : IoFault) :
        (if s'.isDir p' then .ok () else .error e : Except IoFault Unit) =
          if s.isDir p then .ok () else .error e := by
      rw [isDir_relabelled trees first]
    simp only [Tree.makeDirsAlong, first.text_eq_empty]
    split
    · exact ⟨rfl, trees⟩
    · have made := makeDir_relabelled trees first
      generalize t.makeDir p = result at made ⊢
      generalize t'.makeDir p' = result' at made ⊢
      cases made with
      | ok next => exact ⟨rfl, next⟩
      | @error e e' same =>
        subst same
        cases e with
        | notFound =>
          obtain ⟨same, above⟩ := ih trees
          dsimp only
          generalize Tree.makeDirsAlong up t = below at same above ⊢
          generalize Tree.makeDirsAlong up' t' = below' at same above ⊢
          obtain ⟨result, s⟩ := below
          obtain ⟨result', s'⟩ := below'
          obtain rfl : result' = result := same
          cases result' with
          | error e => exact ⟨rfl, above⟩
          | ok _ =>
            have made := makeDir_relabelled above first
            dsimp only at made ⊢
            generalize s.makeDir p = result at made ⊢
            generalize s'.makeDir p' = result' at made ⊢
            cases made with
            | ok next => exact ⟨rfl, next⟩
            | error same =>
              subst same
              exact ⟨settled above _, above⟩
        | _ => exact ⟨settled trees _, trees⟩

theorem append_relabelled (trees : R.Trees t t') (paths : R.Paths p p')
    (holds : ∀ content content', t.content? (p.lead R.cwd) = some content →
      t'.content? (R.loc (p.lead R.cwd)) = some content' →
      R.held (p.lead R.cwd) (content ++ bytes) (content' ++ bytes')) :
    Parallel Eq R.Trees (t.append p bytes) (t'.append p' bytes') := by
  unfold Tree.append
  have aims := target_relabelled trees paths
  cases aimed : t.target p with
  | error e =>
    rw [aimed] at aims
    cases aimed' : t'.target p' with
    | error e' =>
      rw [aimed'] at aims
      cases aims with
      | error same => exact .error same
    | ok file => rw [aimed'] at aims; cases aims
  | ok file =>
    cases aimed' : t'.target p' with
    | error e' => rw [aimed, aimed'] at aims; cases aims
    | ok file' =>
      rw [aimed, aimed'] at aims
      obtain ⟨at_, content⟩ := file
      obtain ⟨at', content'⟩ := file'
      cases aims with
      | ok same =>
        obtain ⟨here, below, rfl, both⟩ := same
        obtain rfl : at_ = p.lead R.cwd := here
        cases both with
        | none => exact .error rfl
        | some both =>
          obtain ⟨-, -, -, before⟩ := Tree.target_lead aimed
          obtain ⟨-, -, -, before'⟩ := Tree.target_lead aimed'
          exact .ok (trees.put below (.file (holds _ _ before.symm before'.symm)))

theorem copy_relabelled (trees : R.Trees t t') (source : R.Paths src src')
    (target : R.Paths dst dst')
    (holds : ∀ content content', R.held (src.lead R.cwd) content content' →
      R.held (dst.lead R.cwd) content content') :
    Parallel Eq R.Trees (t.copy src dst) (t'.copy src' dst') := by
  have copies : Parallel Eq R.Trees
      (t.create dst >>= fun emptied => emptied.read src >>= fun held => emptied.write dst held)
      (t'.create dst' >>= fun emptied => emptied.read src' >>= fun held =>
        emptied.write dst' held) :=
    (create_relabelled trees target).bind fun _ _ emptied =>
      (read_relabelled emptied source).bind fun _ _ held =>
        write_relabelled emptied target (holds _ _ held)
  unfold Tree.copy
  have node := stat_relabelled trees source
  generalize t.stat src = found at node ⊢
  generalize t'.stat src' = found' at node ⊢
  cases node with
  | error same => exact .error same
  | ok same =>
    cases same with
    | dir => exact .error rfl
    | file => exact copies

theorem rename_relabelled (trees : R.Trees t t') (source : R.Paths src src')
    (target : R.Paths dst dst')
    (holds : ∀ content content', R.held (src.lead R.cwd) content content' →
      R.held (dst.lead R.cwd) content content') :
    Parallel Eq R.Trees (t.rename src dst) (t'.rename src' dst') := by
  apply (fileAt_relabelled trees source).bind
  rintro ⟨_, content⟩ ⟨_, content'⟩ ⟨rfl, rfl, held⟩
  dsimp only
  rw [place_relabelled trees target]
  cases placed : t.place dst with
  | error e => exact .error rfl
  | ok at_ =>
    cases at_ with
    | directory at_ => exact .error rfl
    | lost => exact .error rfl
    | entry parent name slash =>
      have node := trees.entry parent name
      have lead := trees.cwd ▸ Tree.place_entry placed
      have moved : R.Trees
          ((t.erase (src.lead R.cwd)).put (parent ++ [name]) (.file content))
          ((t'.erase (R.loc (src.lead R.cwd))).put (R.loc parent ++ [R.label parent name])
            (.file content')) := by
        rw [← loc_concat]
        exact (trees.erase _).put (by simp) (.file (lead ▸ holds _ _ held))
      simp only [Except.map, place, ne_eq, trees.isDir_iff, bind, Except.bind]
      generalize t.node? (parent ++ [name]) = found at node ⊢
      generalize t'.node? (R.loc parent ++ [R.label parent name]) = found' at node ⊢
      split
      · exact .error rfl
      · split
        · exact .error rfl
        · cases node with
          | none => exact .ok moved
          | some same =>
            cases same with
            | dir => exact .error rfl
            | file => exact .ok moved

/-- Trees have one shape if their entries correspond, one by one. -/
theorem trees_of_nodes {t t' : Tree} (cwd : t.cwd = R.cwd) (cwd' : t'.cwd = R.loc R.cwd)
    (cwdLost : t'.cwdLost = t.cwdLost)
    (nodes : List.Forall₂ (fun e e' => e'.1 = R.loc e.1 ∧ Node.Matches (R.held e.1) e.2 e'.2)
      t.nodes t'.nodes) : R.Trees t t' where
  cwd := cwd
  cwd' := cwd'
  cwdLost := cwdLost
  node at_ := by
    have found : Option.Rel (Node.Matches (R.held at_)) (t.nodes.lookup at_)
        (t'.nodes.lookup (R.loc at_)) := by
      generalize t.nodes = entries at nodes ⊢
      generalize t'.nodes = entries' at nodes ⊢
      induction nodes with
      | nil => exact .none
      | @cons e e' rest rest' first _ ih =>
        obtain ⟨key, node⟩ := e
        obtain ⟨_, node'⟩ := e'
        obtain ⟨rfl, matched⟩ := first
        have same : (R.loc at_ == R.loc key) = (at_ == key) :=
          Bool.eq_iff_iff.mpr (by simp [loc_injective.eq_iff])
        rw [List.lookup_cons, List.lookup_cons, same]
        cases hit : at_ == key with
        | false => exact ih
        | true => exact .some (eq_of_beq hit ▸ matched)
    unfold Tree.node?
    simp only [loc_eq_nil]
    split
    · exact .some .dir
    · exact found

end Changes

section Jobs

variable {ε δ α β α' β' : Type} {agree : α → β → Prop} {agree' : α' → β' → Prop}
  {fault : IoFault → ε} {fault' : IoFault → δ} {p p' src src' dst dst' : Path}

/-- Of trees with one shape both jobs make trees with one shape; both give up, or both come to
something, which `agree` relates. -/
def Jobs (agree : α → β → Prop) (job : Job ε α) (job' : Job δ β) : Prop :=
  ∀ t t', R.Trees t t' →
    Parallel (fun _ _ => True) agree (job.runOn t).1 (job'.runOn t').1 ∧
      R.Trees (job.runOn t).2 (job'.runOn t').2

variable {R}

theorem jobs_pure {a : α} {b : β} (values : agree a b) :
    R.Jobs agree (pure a : Job ε α) (pure b : Job δ β) :=
  fun _ _ trees => ⟨.ok values, trees⟩

theorem jobs_throw (e : ε) (e' : δ) :
    R.Jobs agree (throw e : Job ε α) (throw e' : Job δ β) :=
  fun _ _ trees => ⟨.error trivial, trees⟩

theorem Jobs.bind {job : Job ε α} {job' : Job δ β} {f : α → Job ε α'} {g : β → Job δ β'}
    (first : R.Jobs agree job job') (rest : ∀ a b, agree a b → R.Jobs agree' (f a) (g b)) :
    R.Jobs agree' (job >>= f) (job' >>= g) := by
  intro t t' trees
  obtain ⟨results, between⟩ := first t t' trees
  rw [Job.runOn_bind, Job.runOn_bind]
  cases ran : job.runOn t with
  | mk result next => cases ran' : job'.runOn t' with
    | mk result' next' =>
      rw [ran, ran'] at results between
      cases results with
      | ok values => exact rest _ _ values next next' between
      | error => exact ⟨.error trivial, between⟩

theorem settle_relabelled {t t' : Tree} {result result' : Except IoFault Tree}
    (trees : R.Trees t t') (both : Parallel Eq R.Trees result result') :
    Parallel (fun _ _ => True) (fun _ _ => True) ((settle t result).1.mapError fault)
        ((settle t' result').1.mapError fault') ∧
      R.Trees (settle t result).2 (settle t' result').2 := by
  cases both with
  | ok next => exact ⟨.ok trivial, next⟩
  | error => exact ⟨.error trivial, trees⟩

/-- Operations that settle what was made of the trees. -/
theorem jobs_attempt {op op' : Op} {made made' : Tree → Except IoFault Tree}
    (settles : ∀ t, op.apply t = settle t (made t))
    (settles' : ∀ t, op'.apply t = settle t (made' t))
    (makes : ∀ t t', R.Trees t t' → Parallel Eq R.Trees (made t) (made' t')) :
    R.Jobs (fun _ _ => True) (Job.attempt op fault) (Job.attempt op' fault') := by
  intro t t' trees
  rw [Job.runOn_attempt, Job.runOn_attempt, settles, settles']
  exact settle_relabelled trees (makes t t' trees)

theorem jobs_touch (paths : R.Paths p p') :
    R.Jobs (fun _ _ => True) (Job.attempt (.touch p) fault) (Job.attempt (.touch p') fault') :=
  jobs_attempt (fun _ => rfl) (fun _ => rfl) fun _ _ trees => touch_relabelled trees paths

theorem jobs_copy (source : R.Paths src src') (target : R.Paths dst dst')
    (holds : ∀ content content', R.held (src.lead R.cwd) content content' →
      R.held (dst.lead R.cwd) content content') :
    R.Jobs (fun _ _ => True) (Job.attempt (.copy src dst) fault)
      (Job.attempt (.copy src' dst') fault') :=
  jobs_attempt (fun _ => rfl) (fun _ => rfl) fun _ _ trees =>
    copy_relabelled trees source target holds

theorem jobs_rename (source : R.Paths src src') (target : R.Paths dst dst')
    (holds : ∀ content content', R.held (src.lead R.cwd) content content' →
      R.held (dst.lead R.cwd) content content') :
    R.Jobs (fun _ _ => True) (Job.attempt (.rename src dst) fault)
      (Job.attempt (.rename src' dst') fault') :=
  jobs_attempt (fun _ => rfl) (fun _ => rfl) fun _ _ trees =>
    rename_relabelled trees source target holds

theorem jobs_makeDirs (paths : List.Forall₂ R.Paths p.ancestry p'.ancestry) :
    R.Jobs (fun _ _ => True) (Job.attempt (.makeDirs p) fault)
      (Job.attempt (.makeDirs p') fault') := by
  intro t t' trees
  obtain ⟨same, next⟩ := makeDirsAlong_relabelled paths trees
  rw [Job.runOn_attempt, Job.runOn_attempt]
  refine ⟨?_, next⟩
  simp only [Op.apply, silent, Tree.makeDirs, same]
  cases (Tree.makeDirsAlong p.ancestry t).1 with
  | ok _ => exact .ok trivial
  | error _ => exact .error trivial

theorem jobs_ask_read (paths : R.Paths p p') :
    R.Jobs (Parallel Eq (R.held (p.lead R.cwd))) (Job.ask (.read p) : Job ε Reply)
      (Job.ask (.read p') : Job δ Reply) :=
  fun _ _ trees => ⟨.ok (read_relabelled trees paths), trees⟩

theorem jobs_read (paths : R.Paths p p') :
    R.Jobs (R.held (p.lead R.cwd)) (Job.attempt (.read p) fault)
      (Job.attempt (.read p') fault') := by
  intro t t' trees
  rw [Job.runOn_attempt, Job.runOn_attempt]
  exact ⟨(read_relabelled trees paths).mapError fun _ _ _ => trivial, trees⟩

theorem jobs_openFile (paths : R.Paths p p') :
    R.Jobs (fun _ _ => True) (Job.attempt (.openFile p) fault)
      (Job.attempt (.openFile p') fault') := by
  intro t t' trees
  rw [Job.runOn_attempt, Job.runOn_attempt]
  exact ⟨((stat_relabelled trees paths).map fun _ _ _ => trivial).mapError fun _ _ _ => trivial,
    trees⟩

/-- A file is created and written in both trees, or in neither. -/
theorem jobs_write {bytes bytes' : Bytes} {later : IoFault → ε} {later' : IoFault → δ}
    (paths : R.Paths p p') (holds : R.held (p.lead R.cwd) bytes bytes') :
    R.Jobs (fun _ _ => True)
      (Job.attempt (.create p) fault >>= fun _ => Job.attempt (.append p bytes) later)
      (Job.attempt (.create p') fault' >>= fun _ => Job.attempt (.append p' bytes') later') := by
  intro t t' trees
  rw [Job.runOn_bind, Job.runOn_bind, Job.runOn_attempt, Job.runOn_attempt]
  have created := create_relabelled trees paths
  simp only [Op.apply]
  cases made : t.create p with
  | error e => cases made' : t'.create p' with
    | error e' => exact ⟨.error trivial, trees⟩
    | ok next' => rw [made, made'] at created; cases created
  | ok next => cases made' : t'.create p' with
    | error e' => rw [made, made'] at created; cases created
    | ok next' =>
      rw [made, made'] at created
      obtain ⟨both⟩ := created
      have empty := Tree.content?_of_create made
      have empty' := Tree.content?_of_create made'
      rw [trees.cwd] at empty
      rw [trees.cwd', paths.lead] at empty'
      simp only [settle, mapError_ok, Job.runOn_attempt]
      apply settle_relabelled both
      apply append_relabelled both paths
      intro content content' there there'
      cases empty.symm.trans there
      cases empty'.symm.trans there'
      exact holds

end Jobs

end Relabelling
end Files
end OtaAgent
