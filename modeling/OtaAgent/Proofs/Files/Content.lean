import OtaAgent.Files.Script
import OtaAgent.Proofs.Path

set_option autoImplicit false

namespace OtaAgent.Files

section Except

variable {ε α β : Type} {x : Except ε α} {b : β}

theorem exists_ok_of_map {f : α → β} (mapped : x.map f = .ok b) : ∃ a, x = .ok a ∧ f a = b := by
  cases x with
  | ok a => exact ⟨a, rfl, Except.ok.inj mapped⟩
  | error e => cases mapped

theorem eq_ok_of_toOption {a : α} (some_ : x.toOption = some a) : x = .ok a := by
  cases x with
  | ok b =>
    cases some_
    rfl
  | error e => cases some_

theorem exists_ok_of_bind {f : α → Except ε β} (bound : x >>= f = .ok b) :
    ∃ a, x = .ok a ∧ f a = .ok b := by
  cases x with
  | ok a => exact ⟨a, rfl, bound⟩
  | error e => cases bound

end Except

def Node.content? : Node → Option Bytes
  | .file content => some content
  | .dir => none

def Place.location? : Place → Option Location
  | .directory at_ => some at_
  | .lost => none
  | .entry parent name _ => some (parent ++ [name])

namespace Tree

variable {t next last : Tree} {p : Path} {at_ loc : Location} {names : List String} {slash : Bool}

def content? (t : Tree) (loc : Location) : Option Bytes := (t.node? loc).bind Node.content?

theorem content?_of_file {content : Bytes} (there : t.node? loc = some (.file content)) :
    t.content? loc = some content := by
  rw [content?, there]
  rfl

theorem node?_of_content? {content : Bytes} (there : t.content? loc = some content) :
    t.node? loc = some (.file content) := by
  obtain ⟨n, node, held⟩ := Option.bind_eq_some_iff.mp there
  cases n with
  | dir => cases held
  | file bytes =>
    cases held
    exact node

theorem content?_put (n : Node) (loc : Location) (below : at_ ≠ []) :
    (t.put at_ n).content? loc = if loc = at_ then n.content? else t.content? loc := by
  rw [content?, node?_put t at_ loc n below]
  split <;> rfl

theorem put_put (t : Tree) (at_ : Location) (n m : Node) :
    (t.put at_ n).put at_ m = t.put at_ m := by
  simp [put]

theorem lookup_filter (l : List (Location × Node)) (gone : Location → Bool) (loc : Location) :
    (l.filter fun e => !gone e.1).lookup loc = if gone loc then none else l.lookup loc := by
  induction l with
  | nil => simp
  | cons e rest ih =>
    obtain ⟨key, node⟩ := e
    by_cases same : loc = key
    · subst same
      by_cases out : gone loc
      · simp [out, ih]
      · simp [out]
    · have miss : (loc == key) = false := by simpa using same
      by_cases out : gone key
      · simp [out, ih, List.lookup_cons, miss]
      · simp [out, ih, List.lookup_cons, miss]

theorem node?_without (gone : Location → Bool) (below : loc ≠ []) :
    (t.without gone).node? loc = if gone loc then none else t.node? loc := by
  simp only [node?, below, if_false, without, lookup_filter]

theorem without_without (t : Tree) (gone gone' : Location → Bool) :
    (t.without gone).without gone' = t.without fun loc => gone loc || gone' loc := by
  simp [without, List.filter_filter, Bool.and_comm, Bool.or_assoc]

theorem without_nothing (t : Tree) : t.without (fun _ => false) = t := by
  cases t
  simp [without]

theorem node?_without_of_not {gone : Location → Bool} (spared : gone loc = false) :
    (t.without gone).node? loc = t.node? loc := by
  by_cases top : loc = []
  · simp [node?, top]
  · rw [node?_without gone top, spared]
    rfl

theorem cwdLost_without_of_not {gone : Location → Bool}
    (stays : t.cwdLost = false → gone t.cwd = false) :
    (t.without gone).cwdLost = t.cwdLost := by
  cases lost : t.cwdLost with
  | true => exact cwdLost_without t gone lost
  | false => simp [Tree.without, lost, stays lost]

theorem content?_without (gone : Location → Bool) (loc : Location) :
    (t.without gone).content? loc = if gone loc then none else t.content? loc := by
  by_cases top : loc = []
  · subst top
    simp [content?, node?, Node.content?]
  · rw [content?, node?_without gone top]
    split <;> rfl

/-- A walk that gets through ends where the names lead. -/
theorem walk_location {place : Place} (walked : t.walk slash at_ names = .ok place) :
    place.location? = some (Path.follow at_ names) := by
  fun_induction Tree.walk t slash at_ names with
  | case1 => cases walked; rfl
  | case2 => cases walked; rfl
  | case3 => cases walked; rfl
  | case4 => cases walked
  | case5 at_ name notHere notUp fits =>
    cases walked
    simp [Path.follow, notHere, notUp, Place.location?]
  | case6 at_ names more ih =>
    rw [ih walked]
    rfl
  | case7 at_ names more notHere ih =>
    rw [ih walked]
    rfl
  | case8 => cases walked
  | case9 at_ name names more notHere notUp fits isDir ih =>
    rw [ih walked]
    simp [Path.follow, notHere, notUp]
  | case10 => cases walked
  | case11 => cases walked

theorem walkLost_location {place : Place} (walked : t.walkLost slash names = .ok place)
    (leads : place.location? = some loc) : loc = Path.follow t.cwd names := by
  induction names with
  | nil =>
    cases walked
    cases leads
  | cons name names ih =>
    rw [walkLost] at walked
    rw [Path.follow]
    split at walked
    · rename_i here
      rw [if_pos here]
      exact ih walked
    · rename_i notHere
      rw [if_neg notHere]
      split at walked
      · rename_i up
        rw [if_pos up]
        rw [walk_location walked] at leads
        exact (Option.some.inj leads).symm
      · cases walked

theorem place_location {place : Place} (placed : t.place p = .ok place)
    (leads : place.location? = some loc) : loc = p.lead t.cwd := by
  unfold Tree.place at placed
  simp only at placed
  rw [Path.lead, Path.names]
  split at placed
  · cases placed
  · split at placed
    · cases placed
    · split at placed
      · cases placed
      · split at placed
        · rename_i absolute
          rw [if_pos absolute]
          rw [walk_location placed] at leads
          exact (Option.some.inj leads).symm
        · rename_i relative
          rw [if_neg relative]
          split at placed
          · exact walkLost_location placed leads
          · rw [walk_location placed] at leads
            exact (Option.some.inj leads).symm

theorem place_entry {parent : Location} {name : String}
    (placed : t.place p = .ok (.entry parent name slash)) : parent ++ [name] = p.lead t.cwd :=
  place_location placed rfl

/-- An entry that can be written lies where its path leads. -/
theorem target_lead {content : Option Bytes} (aimed : t.target p = .ok (loc, content)) :
    loc = p.lead t.cwd ∧ loc ≠ [] ∧ t.node? loc ≠ some .dir ∧ content = t.content? loc := by
  unfold target at aimed
  split at aimed
  · cases aimed
  · cases aimed
  · cases aimed
  · rename_i parent name slash placed
    split at aimed
    · cases aimed
    · split at aimed
      · cases aimed
      · split at aimed
        · cases aimed
        · rename_i held there
          cases aimed
          exact ⟨place_entry placed, by simp, by simp [there],
            by simp [content?, there, Node.content?]⟩
        · rename_i there
          cases aimed
          exact ⟨place_entry placed, by simp, by simp [there], by simp [content?, there]⟩

theorem fileAt_lead {content : Bytes} (found : t.fileAt p = .ok (loc, content)) :
    loc = p.lead t.cwd ∧ t.node? loc = some (.file content) := by
  unfold fileAt at found
  split at found
  · cases found
  · cases found
  · cases found
  · rename_i parent name slash placed
    split at found
    · cases found
    · cases found
    · rename_i held there
      split at found
      · cases found
      · cases found
        exact ⟨place_entry placed, there⟩

theorem read_of_place {parent : Location} {name : String}
    (placed : t.place p = .ok (.entry parent name false)) :
    t.read p = match t.node? (parent ++ [name]) with
      | none => .error .notFound
      | some .dir => .error .isDirectory
      | some (.file content) => .ok content := by
  simp only [Tree.read, Tree.fileAt, placed]
  cases t.node? (parent ++ [name]) with
  | none => rfl
  | some node => cases node <;> rfl

/-- `next` has the working directory of `t`, and its files but for those at `places`. -/
structure Keeps (t next : Tree) (places : Location → Prop) : Prop where
  cwd : next.cwd = t.cwd
  content : ∀ loc, ¬ places loc → next.content? loc = t.content? loc

section Keeps

variable {places wider : Location → Prop}

theorem Keeps.refl (t : Tree) (places : Location → Prop) : t.Keeps t places := ⟨rfl, fun _ _ => rfl⟩

theorem Keeps.trans (first : t.Keeps next places) (second : next.Keeps last places) :
    t.Keeps last places where
  cwd := second.cwd.trans first.cwd
  content loc outside := (second.content loc outside).trans (first.content loc outside)

theorem Keeps.imp (keeps : t.Keeps next places) (imp : ∀ loc, places loc → wider loc) :
    t.Keeps next wider where
  cwd := keeps.cwd
  content loc outside := keeps.content loc fun inside => outside (imp loc inside)

end Keeps

/-- `next` lies as `t` does but at `places`, and has the same working directory. At `ways` there may
be directories where nothing was. -/
structure Alters (t next : Tree) (places ways : Location → Prop) : Prop where
  cwd : next.cwd = t.cwd
  node : ∀ loc, ¬ places loc → next.node? loc = t.node? loc ∨
    ways loc ∧ t.node? loc = none ∧ next.node? loc = some .dir

section Alters

variable {places wider ways ways' : Location → Prop}

theorem Alters.refl (t : Tree) (places ways : Location → Prop) : t.Alters t places ways :=
  ⟨rfl, fun _ _ => .inl rfl⟩

theorem Alters.trans (first : t.Alters next places ways) (second : next.Alters last places ways) :
    t.Alters last places ways where
  cwd := second.cwd.trans first.cwd
  node loc outside := by
    rcases second.node loc outside with same | ⟨way, free, isDir⟩
    · rw [same]
      exact first.node loc outside
    · rcases first.node loc outside with same | ⟨-, -, before⟩
      · exact .inr ⟨way, same.symm.trans free, isDir⟩
      · cases free.symm.trans before

theorem Alters.imp (alters : t.Alters next places ways) (imp : ∀ loc, places loc → wider loc)
    (imp' : ∀ loc, ways loc → ways' loc) : t.Alters next wider ways' where
  cwd := alters.cwd
  node loc outside := (alters.node loc fun inside => outside (imp loc inside)).imp_right
    (.imp_left (imp' loc))

/-- No file comes or goes where a directory is made. -/
theorem Alters.keeps (alters : t.Alters next places ways) : t.Keeps next places where
  cwd := alters.cwd
  content loc outside := by
    rcases alters.node loc outside with same | ⟨-, free, isDir⟩
    · rw [content?, content?, same]
    · rw [content?, content?, free, isDir]
      rfl

theorem alters_put (n : Node) (below : at_ ≠ []) : t.Alters (t.put at_ n) (· = at_) ways where
  cwd := rfl
  node loc outside := .inl (by rw [node?_put t at_ loc n below, if_neg outside])

theorem alters_put_dir (below : at_ ≠ []) (free : t.node? at_ = none) :
    t.Alters (t.put at_ .dir) places (· = at_) where
  cwd := rfl
  node loc _ := by
    rw [node?_put t at_ loc .dir below]
    split
    · rename_i same
      subst same
      exact .inr ⟨rfl, free, rfl⟩
    · exact .inl rfl

theorem alters_without (gone : Location → Bool) :
    t.Alters (t.without gone) (gone · = true) ways where
  cwd := rfl
  node _ outside := .inl (node?_without_of_not (Bool.eq_false_iff.mpr outside))

theorem alters_makeDir (made : t.makeDir p = .ok next) :
    t.Alters next places (· = p.lead t.cwd) := by
  unfold makeDir at made
  split at made
  · cases made
  · cases made
  · cases made
  · rename_i parent name slash placed
    split at made
    · cases made
    · split at made
      · cases made
      · rename_i free
        cases made
        rw [← place_entry placed]
        exact alters_put_dir (by simp) free

/-- Where the paths lead, one after the other, directories may be made. -/
theorem alters_makeDirsAlong (paths : List Path) (t : Tree)
    (each : ∀ q ∈ paths, ∀ x next : Tree, x.cwd = t.cwd → x.makeDir q = .ok next →
      ways (q.lead t.cwd)) : t.Alters (makeDirsAlong paths t).2 places ways := by
  induction paths generalizing t with
  | nil => exact .refl t _ _
  | cons p up ih =>
    have here {x next : Tree} (same : x.cwd = t.cwd) (made : x.makeDir p = .ok next) :
        x.Alters next places ways := by
      refine (alters_makeDir made).imp (fun _ => id) fun loc there => ?_
      rw [there, same]
      exact each p List.mem_cons_self x next same made
    rw [makeDirsAlong]
    split
    · exact .refl t _ _
    · split
      · rename_i made
        exact here rfl made
      · have above := ih t fun q among => each q (List.mem_cons_of_mem p among)
        split
        · rename_i failed
          rwa [failed] at above
        · rename_i next ready
          rw [ready] at above
          split
          · rename_i made
            exact above.trans (here above.cwd made)
          · exact above
      · exact .refl t _ _

theorem alters_target {content : Option Bytes} (aimed : t.target p = .ok (loc, content))
    (n : Node) : t.Alters (t.put loc n) (· = p.lead t.cwd) ways := by
  obtain ⟨rfl, below, -, -⟩ := target_lead aimed
  exact alters_put n below

theorem alters_create (made : t.create p = .ok next) :
    t.Alters next (· = p.lead t.cwd) ways := by
  obtain ⟨⟨loc, content⟩, aimed, rfl⟩ := exists_ok_of_map made
  exact alters_target aimed _

theorem alters_touch (made : t.touch p = .ok next) : t.Alters next (· = p.lead t.cwd) ways := by
  obtain ⟨⟨loc, content⟩, aimed, rfl⟩ := exists_ok_of_map made
  exact alters_target aimed _

theorem alters_append {bytes : Bytes} (made : t.append p bytes = .ok next) :
    t.Alters next (· = p.lead t.cwd) ways := by
  unfold append at made
  split at made
  · rename_i aimed
    cases made
    exact alters_target aimed _
  · cases made
  · cases made

theorem alters_write {bytes : Bytes} (made : t.write p bytes = .ok next) :
    t.Alters next (· = p.lead t.cwd) ways := by
  obtain ⟨⟨loc, content⟩, aimed, rfl⟩ := exists_ok_of_map made
  exact alters_target aimed _

theorem alters_copy {src dst : Path} (made : t.copy src dst = .ok next) :
    t.Alters next (· = dst.lead t.cwd) ways := by
  unfold copy at made
  split at made
  · cases made
  · cases made
  · obtain ⟨emptied, created, made⟩ := exists_ok_of_bind made
    obtain ⟨content, -, written⟩ := exists_ok_of_bind made
    have first : t.Alters emptied _ ways := alters_create created
    have second : emptied.Alters next _ ways := alters_write written
    rw [first.cwd] at second
    exact first.trans second

theorem alters_rename {src dst : Path} (made : t.rename src dst = .ok next) :
    t.Alters next (fun loc => loc = src.lead t.cwd ∨ loc = dst.lead t.cwd) ways := by
  obtain ⟨⟨source, content⟩, found, made⟩ := exists_ok_of_bind made
  obtain ⟨place, placed, made⟩ := exists_ok_of_bind made
  obtain ⟨rfl, -⟩ := fileAt_lead found
  split at made
  · cases made
  · cases made
  · rename_i parent name slash
    split at made
    · cases made
    · split at made
      · cases made
      · split at made
        · cases made
        · cases made
          have erased : t.Alters (t.erase (src.lead t.cwd)) (· = src.lead t.cwd) ways :=
            (alters_without _).imp (fun loc hit => by simpa using hit) fun _ => id
          have replaced : (t.erase (src.lead t.cwd)).Alters
              ((t.erase (src.lead t.cwd)).put (parent ++ [name]) (.file content))
              (· = parent ++ [name]) ways := alters_put _ (by simp)
          rw [← place_entry placed]
          exact (erased.imp (fun _ => .inl) fun _ => id).trans
            (replaced.imp (fun _ => .inr) fun _ => id)

theorem dirAt_lead (found : t.dirAt p = .ok (some loc)) : loc = p.lead t.cwd := by
  unfold dirAt at found
  split at found
  · cases found
  · rename_i placed
    cases found
    exact place_location placed rfl
  · cases found
  · rename_i parent name slash placed
    split at found
    · cases found
    · cases found
    · cases found
      exact place_entry placed

theorem eq_of_removeDir (removed : t.removeDir p = .ok next) : next = t.erase (p.lead t.cwd) := by
  unfold removeDir at removed
  split at removed
  · cases removed
  · cases removed
  · cases removed
  · rename_i parent name slash placed
    rw [← place_entry placed]
    split at removed
    · cases removed
    · cases removed
    · cases removed
      rfl

theorem exists_without_of_removeDir {gone : Location → Bool}
    (inside : ∀ loc, gone loc = true → p.lead t.cwd <+: loc)
    (removed : (t.without gone).removeDir p = .ok next) :
    ∃ all : Location → Bool, next = t.without all ∧
      ∀ loc, all loc = true → p.lead t.cwd <+: loc := by
  refine ⟨fun loc => gone loc || loc == p.lead t.cwd, ?_, fun loc hit => ?_⟩
  · exact (eq_of_removeDir removed).trans (without_without t gone _)
  · rcases Bool.or_eq_true _ _ ▸ hit with below | same
    · exact inside loc below
    · exact beq_iff_eq.mp same ▸ List.prefix_rfl

/-- Whatever becomes of the removal, nothing is taken away but the directory and what lies in it. -/
theorem exists_without_of_removeAll (t : Tree) (p : Path) :
    ∃ gone : Location → Bool, (t.removeAll p).2 = t.without gone ∧
      ∀ loc, gone loc = true → p.lead t.cwd <+: loc := by
  have nothing : ∃ gone : Location → Bool, t = t.without gone ∧
      ∀ loc, gone loc = true → p.lead t.cwd <+: loc :=
    ⟨fun _ => false, (without_nothing t).symm, nofun⟩
  unfold removeAll
  split
  · exact nothing
  · rename_i at_ found
    cases at_ with
    | none =>
      dsimp only
      split
      · rename_i removed
        obtain ⟨gone, same, inside⟩ := nothing
        rw [same] at removed
        exact exists_without_of_removeDir inside removed
      · exact nothing
      · exact nothing
    | some at_ =>
      have inside (loc : Location) (hit : (at_.isPrefixOf loc && loc != at_) = true) :
          p.lead t.cwd <+: loc := by
        rw [Bool.and_eq_true] at hit
        exact dirAt_lead found ▸ List.isPrefixOf_iff_prefix.mp hit.1
      dsimp only
      split
      · rename_i removed
        exact exists_without_of_removeDir inside removed
      · exact ⟨_, rfl, inside⟩
      · exact ⟨_, rfl, inside⟩

theorem alters_removeAll (p : Path) (t : Tree) :
    t.Alters (t.removeAll p).2 (p.lead t.cwd <+: ·) ways := by
  obtain ⟨gone, removed, inside⟩ := t.exists_without_of_removeAll p
  rw [removed]
  exact (alters_without gone).imp inside fun _ => id

end Alters

section Keeps

theorem keeps_create (made : t.create p = .ok next) : t.Keeps next (· = p.lead t.cwd) :=
  (alters_create made : t.Alters next _ fun _ => False).keeps

theorem keeps_touch (made : t.touch p = .ok next) : t.Keeps next (· = p.lead t.cwd) :=
  (alters_touch made : t.Alters next _ fun _ => False).keeps

theorem keeps_append {bytes : Bytes} (made : t.append p bytes = .ok next) :
    t.Keeps next (· = p.lead t.cwd) :=
  (alters_append made : t.Alters next _ fun _ => False).keeps

theorem keeps_rename {src dst : Path} (made : t.rename src dst = .ok next) :
    t.Keeps next fun loc => loc = src.lead t.cwd ∨ loc = dst.lead t.cwd :=
  (alters_rename made : t.Alters next _ fun _ => False).keeps

end Keeps

theorem content?_of_create (made : t.create p = .ok next) :
    next.content? (p.lead t.cwd) = some [] := by
  obtain ⟨⟨loc, content⟩, aimed, rfl⟩ := exists_ok_of_map made
  obtain ⟨rfl, below, -, -⟩ := target_lead aimed
  rw [content?_put _ _ below, if_pos rfl]
  rfl

theorem content?_of_write {bytes : Bytes} (made : t.write p bytes = .ok next) :
    next.content? (p.lead t.cwd) = some bytes := by
  obtain ⟨⟨loc, content⟩, aimed, rfl⟩ := exists_ok_of_map made
  obtain ⟨rfl, below, -, -⟩ := target_lead aimed
  rw [content?_put _ _ below, if_pos rfl]
  rfl

theorem content?_of_append {bytes : Bytes} (made : t.append p bytes = .ok next) :
    ∃ held, t.content? (p.lead t.cwd) = some held ∧
      next.content? (p.lead t.cwd) = some (held ++ bytes) := by
  unfold append at made
  split at made
  · rename_i at_ held aimed
    obtain ⟨rfl, below, -, found⟩ := target_lead aimed
    cases made
    refine ⟨held, found.symm, ?_⟩
    rw [content?_put _ _ below, if_pos rfl]
    rfl
  · cases made
  · cases made

theorem content?_of_rename {src dst : Path} (made : t.rename src dst = .ok next) :
    ∃ held, t.content? (src.lead t.cwd) = some held ∧
      next.content? (dst.lead t.cwd) = some held := by
  obtain ⟨⟨source, content⟩, found, made⟩ := exists_ok_of_bind made
  obtain ⟨place, placed, made⟩ := exists_ok_of_bind made
  obtain ⟨rfl, there⟩ := fileAt_lead found
  refine ⟨content, content?_of_file there, ?_⟩
  split at made
  · cases made
  · cases made
  · split at made
    · cases made
    · split at made
      · cases made
      · split at made
        · cases made
        · cases made
          rw [← place_entry placed, content?_put _ _ (by simp), if_pos rfl]
          rfl

/-- A copy holds what is copied, unless that is lost by going over itself. -/
theorem content?_of_copy {src dst : Path} (made : t.copy src dst = .ok next) :
    ∃ held, next.content? (dst.lead t.cwd) = some held ∧
      (src.lead t.cwd ≠ dst.lead t.cwd → t.content? (src.lead t.cwd) = some held) := by
  unfold copy at made
  split at made
  · cases made
  · cases made
  · obtain ⟨emptied, created, made⟩ := exists_ok_of_bind made
    obtain ⟨held, read, written⟩ := exists_ok_of_bind made
    obtain ⟨⟨loc, _⟩, found, rfl⟩ := exists_ok_of_map read
    obtain ⟨rfl, there⟩ := fileAt_lead found
    have keeps := keeps_create created
    have wrote := content?_of_write written
    rw [keeps.cwd] at wrote there
    exact ⟨_, wrote, fun apart => (keeps.content _ apart).symm.trans (content?_of_file there)⟩

/-- Nothing is left where a file was moved from. -/
theorem node?_source_of_rename {src dst : Path} (made : t.rename src dst = .ok next)
    (apart : src.lead t.cwd ≠ dst.lead t.cwd) : next.node? (src.lead t.cwd) = none := by
  obtain ⟨⟨source, content⟩, found, made⟩ := exists_ok_of_bind made
  obtain ⟨place, placed, made⟩ := exists_ok_of_bind made
  obtain ⟨rfl, there⟩ := fileAt_lead found
  have below : src.lead t.cwd ≠ [] := by
    intro top
    simp [top, node?] at there
  split at made
  · cases made
  · cases made
  · split at made
    · cases made
    · split at made
      · cases made
      · split at made
        · cases made
        · cases made
          rw [← place_entry placed] at apart
          rw [node?_put _ _ _ _ (by simp), if_neg apart, erase, node?_without _ below]
          simp

/-- What is moved is no longer where it was. -/
theorem content?_source_of_rename {src dst : Path} (made : t.rename src dst = .ok next)
    (apart : src.lead t.cwd ≠ dst.lead t.cwd) : next.content? (src.lead t.cwd) = none := by
  rw [content?, node?_source_of_rename made apart]
  rfl

/-- A file that is touched keeps what it holds; one that was not there is empty. -/
theorem content?_of_touch (made : t.touch p = .ok next) :
    next.content? (p.lead t.cwd) = some ((t.content? (p.lead t.cwd)).getD []) := by
  obtain ⟨⟨loc, content⟩, aimed, rfl⟩ := exists_ok_of_map made
  obtain ⟨rfl, below, -, rfl⟩ := target_lead aimed
  rw [content?_put _ _ below, if_pos rfl]
  rfl

/-- A file that is written as a draft and then moved to its place holds what was written. -/
theorem replaced {made written : Tree} {draft : Path} {bytes : Bytes}
    (create : t.create draft = .ok made) (append : made.append draft bytes = .ok written)
    (rename : written.rename draft p = .ok next) :
    next.content? (p.lead t.cwd) = some bytes ∧
      t.Keeps next fun loc => loc = p.lead t.cwd ∨ loc = draft.lead t.cwd := by
  have first := keeps_create create
  have second := keeps_append append
  have third := keeps_rename rename
  have empty := content?_of_create create
  obtain ⟨held, before, after⟩ := content?_of_append append
  obtain ⟨moved, source, target⟩ := content?_of_rename rename
  rw [first.cwd] at second before after
  rw [second.cwd, first.cwd] at third source target
  obtain rfl : [] = held := Option.some.inj (empty.symm.trans before)
  obtain rfl : bytes = moved := Option.some.inj (after.symm.trans source)
  refine ⟨target, ?_⟩
  have drafted : t.Keeps written (· = draft.lead t.cwd) := first.trans second
  exact (drafted.imp fun _ => .inr).trans (third.imp fun _ => Or.symm)

theorem place_of_create (made : t.create p = .ok next) :
    ∃ parent name, t.place p = .ok (.entry parent name false) := by
  obtain ⟨⟨loc, content⟩, aimed, -⟩ := exists_ok_of_map made
  unfold target at aimed
  split at aimed
  · cases aimed
  · cases aimed
  · cases aimed
  · rename_i parent name slash placed
    split at aimed
    · cases aimed
    · rename_i plain
      rw [Bool.not_eq_true] at plain
      subst plain
      exact ⟨parent, name, placed⟩

/-- Where a name leads to from the directory at `at_` if other names follow. -/
def step (t : Tree) (at_ : Location) (name : String) : Except IoFault Location :=
  if name = "." then .ok at_
  else if name = ".." then .ok at_.dropLast
  else if maxName < name.utf8ByteSize then .error .nameTooLong
  else match t.node? (at_ ++ [name]) with
    | some .dir => .ok (at_ ++ [name])
    | some (.file _) => .error .notDirectory
    | none => .error .notFound

theorem walk_cons (name : String) (more : names ≠ []) :
    t.walk slash at_ (name :: names) = t.step at_ name >>= fun loc => t.walk slash loc names := by
  obtain ⟨other, rest, rfl⟩ := List.exists_cons_of_ne_nil more
  rw [walk.eq_3 t slash at_ name _ more, step]
  split
  · rfl
  · split
    · rfl
    · split
      · rfl
      · cases t.node? (at_ ++ [name]) with
        | none => rfl
        | some n => cases n <;> rfl

section Sibling

variable {n m last_ : String} {parent : Location} {after : Bool}

/-- A walk that gets to a name gets to every shorter name in that directory. -/
theorem walk_sibling (isName : Path.IsName n) (shorter : n.utf8ByteSize ≤ m.utf8ByteSize)
    (walked : t.walk slash at_ (names ++ [m]) = .ok (.entry parent last_ slash)) :
    t.walk after at_ (names ++ [n]) = .ok (.entry parent n after) := by
  induction names generalizing at_ with
  | nil =>
    simp only [List.nil_append, walk] at walked ⊢
    split at walked
    · cases walked
    · split at walked
      · cases walked
      · split at walked
        · cases walked
        · rename_i fits
          cases walked
          have shortEnough : ¬ maxName < n.utf8ByteSize := by omega
          simp [isName.notHere, isName.notUp, shortEnough]
  | cons name names ih =>
    rw [List.cons_append, walk_cons name (by simp)] at walked ⊢
    obtain ⟨loc, went, walked⟩ := exists_ok_of_bind walked
    rw [went]
    exact ih walked

theorem walkLost_sibling (isName : Path.IsName n) (shorter : n.utf8ByteSize ≤ m.utf8ByteSize)
    (walked : t.walkLost slash (names ++ [m]) = .ok (.entry parent last_ slash)) :
    t.walkLost after (names ++ [n]) = .ok (.entry parent n after) := by
  induction names with
  | nil =>
    simp only [List.nil_append, walkLost] at walked
    split at walked
    · cases walked
    · split at walked <;> cases walked
  | cons name names ih =>
    rw [List.cons_append, walkLost] at walked ⊢
    split
    · rename_i here
      exact ih (by rwa [if_pos here] at walked)
    · rename_i notHere
      rw [if_neg notHere] at walked
      split
      · rename_i up
        rw [if_pos up] at walked
        exact walk_sibling isName shorter walked
      · rename_i notUp
        rw [if_neg notUp] at walked
        cases walked

/-- A path to a name in a directory leads somewhere if one to a longer name does. -/
theorem place_sibling {dir : Path} (isName : Path.IsName n) (isLonger : Path.IsName m)
    (shorter : n.utf8ByteSize ≤ m.utf8ByteSize) (noNul : '\x00' ∉ n.toList)
    (placed : t.place (dir.join m) = .ok (.entry parent last_ false)) :
    t.place (dir.join n) = .ok (.entry parent n false) := by
  obtain ⟨stem, text⟩ := Path.text_join dir
  have ending {k : String} (isName : Path.IsName k) :
      ((dir.join k).text.toList.getLast? == some '/') = false := by
    simpa using Path.getLast?_join_ne dir isName
  have namesOf {k : String} (isName : Path.IsName k) :
      ((slashRuns (dir.join k).text.toList).filter (· ≠ [])).map String.ofList = dir.names ++ [k] :=
    Path.names_join dir isName
  unfold Tree.place at placed ⊢
  simp only [ending isName, ending isLonger, namesOf isName, namesOf isLonger,
    Path.isAbsolute_join dir isName, Path.isAbsolute_join dir isLonger] at placed ⊢
  split at placed
  · cases placed
  · split at placed
    · cases placed
    · rename_i plain
      split at placed
      · cases placed
      · rename_i fits
        rw [text isLonger] at plain fits
        have full : (dir.join n).text.toList ≠ [] := by
          simp [text isName, isName.notEmpty]
        have clean : '\x00' ∉ (dir.join n).text.toList := by
          rw [text isName]
          simp_all
        have short : ¬ maxPath ≤ (dir.join n).text.utf8ByteSize := by
          rw [text isName]
          simp only [String.utf8ByteSize_append] at fits ⊢
          omega
        rw [if_neg full, if_neg clean, if_neg short]
        split at placed
        · rename_i absolute
          rw [if_pos absolute]
          exact walk_sibling isName shorter placed
        · rename_i relative
          rw [if_neg relative]
          split at placed
          · rename_i lost
            rw [if_pos lost]
            exact walkLost_sibling isName shorter placed
          · rename_i there
            rw [if_neg there]
            exact walk_sibling isName shorter placed

end Sibling

end Tree

/-- The locations whose files the operation may change from the working directory `cwd`. -/
def Op.Touches (cwd : Location) : Op → Location → Prop
  | .makeDirs _ | .probe _ | .openFile _ | .read _ => fun _ => False
  | .touch p | .create p | .append p _ => fun loc => loc = p.lead cwd
  | .copy _ dst => fun loc => loc = dst.lead cwd
  | .rename src dst => fun loc => loc = src.lead cwd ∨ loc = dst.lead cwd
  | .removeAll p => fun loc => p.lead cwd <+: loc

/-- The locations at which the operation may make directories. -/
def Op.Makes (cwd : Location) : Op → Location → Prop
  | .makeDirs p => fun loc => ∃ q ∈ p.ancestry, loc = q.lead cwd
  | _ => fun _ => False

theorem alters_settle {t : Tree} {result : Except IoFault Tree} {places ways : Location → Prop}
    (alters : ∀ next, result = .ok next → t.Alters next places ways) :
    t.Alters (settle t result).2 places ways := by
  cases result with
  | ok next => exact alters next rfl
  | error e => exact .refl t places ways

theorem Op.alters (op : Op) (t : Tree) :
    t.Alters (op.apply t).2 (op.Touches t.cwd) (op.Makes t.cwd) := by
  cases op with
  | makeDirs p => exact Tree.alters_makeDirsAlong _ t fun q among _ _ _ _ => ⟨q, among, rfl⟩
  | probe p => exact .refl t _ _
  | openFile p => exact .refl t _ _
  | read p => exact .refl t _ _
  | touch p => exact alters_settle fun next made => Tree.alters_touch made
  | create p => exact alters_settle fun next made => Tree.alters_create made
  | append p bytes => exact alters_settle fun next made => Tree.alters_append made
  | copy src dst => exact alters_settle fun next made => Tree.alters_copy made
  | rename src dst => exact alters_settle fun next made => Tree.alters_rename made
  | removeAll p => exact Tree.alters_removeAll p t

theorem Op.keeps (op : Op) (t : Tree) : t.Keeps (op.apply t).2 (op.Touches t.cwd) :=
  (op.alters t).keeps

end OtaAgent.Files
