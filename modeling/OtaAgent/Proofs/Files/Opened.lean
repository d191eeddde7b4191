import OtaAgent.Proofs.Files.Growing
import OtaAgent.Proofs.Path.Parts

set_option autoImplicit false

namespace OtaAgent.Files.Tree

variable {t next : Tree} {p q dir : Path} {at_ loc : Location} {n m : String}
  {names more : List String} {slash after : Bool} {place : Place} {content : Bytes}

/-- Why the text of a path is refused, whatever lies where. -/
def textFault? (p : Path) : Option IoFault :=
  if p.text.toList = [] then some .notFound
  else if '\x00' ∈ p.text.toList then some .nulInPath
  else if maxPath ≤ p.text.utf8ByteSize then some .nameTooLong
  else none

/-- Where names lead in `t`, from the root or from the working directory. -/
def resolve (t : Tree) (absolute slash : Bool) (names : List String) : Except IoFault Place :=
  if absolute then t.walk slash [] names
  else if t.cwdLost then t.walkLost slash names
  else t.walk slash t.cwd names

theorem place_eq (t : Tree) (p : Path) : t.place p = match textFault? p with
    | some e => .error e
    | none => t.resolve p.isAbsolute (p.text.toList.getLast? == some '/') p.names := by
  unfold Tree.place textFault? resolve
  dsimp only
  split
  · rfl
  · split
    · rfl
    · split <;> rfl

/-- A name that leads to a directory leads there if other names follow, too. -/
theorem step_of_walk (walked : t.walk slash at_ [n] = .ok place)
    (here : place.location? = some loc) (isDir : t.node? loc = some .dir) :
    t.step at_ n = .ok loc := by
  rw [walk] at walked
  unfold step
  split at walked
  · rename_i same
    cases walked
    rw [if_pos same]
    exact congrArg Except.ok (Option.some.inj here)
  · rename_i notHere
    rw [if_neg notHere]
    split at walked
    · rename_i up
      cases walked
      rw [if_pos up]
      exact congrArg Except.ok (Option.some.inj here)
    · rename_i notUp
      rw [if_neg notUp]
      split at walked
      · cases walked
      · rename_i fits
        cases walked
        cases here
        rw [if_neg fits, isDir]

/-- A walk that leads to a directory goes on from there. -/
theorem walk_append (walked : t.walk slash at_ names = .ok place)
    (here : place.location? = some loc) (isDir : t.node? loc = some .dir) (goesOn : more ≠ []) :
    t.walk after at_ (names ++ more) = t.walk after loc more := by
  have further (names : List String) : names ++ more ≠ [] := by simp [goesOn]
  induction names generalizing at_ with
  | nil =>
    cases walked
    cases here
    rfl
  | cons name names ih =>
    rw [List.cons_append, walk_cons name (further names)]
    cases names with
    | nil =>
      rw [step_of_walk walked here isDir]
      rfl
    | cons other names =>
      rw [walk_cons name (by simp)] at walked
      obtain ⟨between, went, walked⟩ := exists_ok_of_bind walked
      rw [went]
      exact ih walked

theorem walkLost_append (walked : t.walkLost slash names = .ok place)
    (here : place.location? = some loc) (isDir : t.node? loc = some .dir) (goesOn : more ≠ []) :
    t.walkLost after (names ++ more) = t.walk after loc more := by
  induction names with
  | nil =>
    cases walked
    cases here
  | cons name names ih =>
    rw [walkLost] at walked
    rw [List.cons_append, walkLost]
    split at walked
    · rename_i here_
      rw [if_pos here_]
      exact ih walked
    · rename_i notHere
      rw [if_neg notHere]
      split at walked
      · rename_i up
        rw [if_pos up]
        exact walk_append walked here isDir goesOn
      · cases walked

theorem resolve_append {absolute : Bool}
    (resolved : t.resolve absolute slash names = .ok place) (here : place.location? = some loc)
    (isDir : t.node? loc = some .dir) (goesOn : more ≠ []) :
    t.resolve absolute after (names ++ more) = t.walk after loc more := by
  unfold resolve at resolved ⊢
  split at resolved
  · rename_i root
    rw [if_pos root]
    exact walk_append resolved here isDir goesOn
  · rename_i relative
    rw [if_neg relative]
    split at resolved
    · rename_i lost
      rw [if_pos lost]
      exact walkLost_append resolved here isDir goesOn
    · rename_i there
      rw [if_neg there]
      exact walk_append resolved here isDir goesOn

section Long

variable (long : maxName < n.utf8ByteSize)

include long

/-- No walk gets to a name that is too long, or beyond it. -/
theorem walk_of_long (among : n ∈ names) : ∃ e, t.walk slash at_ names = .error e := by
  have notHere : n ≠ "." := by
    rintro rfl
    exact absurd long (by decide)
  have notUp : n ≠ ".." := by
    rintro rfl
    exact absurd long (by decide)
  induction names generalizing at_ with
  | nil => cases among
  | cons name names ih =>
    cases names with
    | nil =>
      obtain rfl := List.mem_singleton.mp among
      exact ⟨.nameTooLong, by rw [walk, if_neg notHere, if_neg notUp, if_pos long]⟩
    | cons other rest =>
      rw [walk_cons name (by simp)]
      cases went : t.step at_ name with
      | error e => exact ⟨e, rfl⟩
      | ok loc =>
        rcases List.mem_cons.mp among with rfl | later
        · rw [step, if_neg notHere, if_neg notUp, if_pos long] at went
          cases went
        · exact ih later

theorem walkLost_of_long (among : n ∈ names) : ∃ e, t.walkLost slash names = .error e := by
  induction names with
  | nil => cases among
  | cons name names ih =>
    have later (filler : name.utf8ByteSize ≤ 2) : n ∈ names := by
      rcases List.mem_cons.mp among with rfl | later
      · exact absurd (Nat.lt_of_lt_of_le long filler) (by decide)
      · exact later
    rw [walkLost]
    split
    · rename_i here
      exact ih (later (here ▸ by decide))
    · split
      · rename_i up
        exact walk_of_long long (later (up ▸ by decide))
      · exact ⟨.notFound, rfl⟩

/-- A path with a name that is too long leads nowhere. -/
theorem place_of_long (among : n ∈ p.names) : ∃ e, t.place p = .error e := by
  rw [place_eq]
  cases textFault? p with
  | some e => exact ⟨e, rfl⟩
  | none =>
    dsimp only
    unfold resolve
    split
    · exact walk_of_long long among
    · split
      · exact walkLost_of_long long among
      · exact walk_of_long long among

end Long

/-- The directory `dir` is there and lies at `at_`; so is the directory that it lies in. -/
structure Opened (t : Tree) (dir : Path) (at_ : Location) : Prop where
  found : t.dirAt dir = .ok (some at_)
  isDir : t.node? at_ = some .dir
  above : t.node? at_.dropLast = some .dir

theorem Opened.lead_eq (opened : t.Opened dir at_) : dir.lead t.cwd = at_ :=
  (dirAt_lead opened.found).symm

theorem Opened.placed (opened : t.Opened dir at_) :
    ∃ place, t.place dir = .ok place ∧ place.location? = some at_ := by
  have found := opened.found
  unfold dirAt at found
  split at found
  · cases found
  · rename_i placed
    cases found
    exact ⟨_, placed, rfl⟩
  · cases found
  · rename_i parent name slash placed
    split at found
    · cases found
    · cases found
    · cases found
      exact ⟨_, placed, rfl⟩

theorem opened_of_placed (placed : t.place dir = .ok place) (here : place.location? = some at_)
    (isDir : t.node? at_ = some .dir) (above : t.node? at_.dropLast = some .dir) :
    t.Opened dir at_ where
  found := by
    unfold dirAt
    cases place with
    | directory loc =>
      cases here
      simp [placed]
    | lost => cases here
    | entry parent name slash =>
      cases here
      simp [placed, isDir]
  isDir := isDir
  above := above

theorem Opened.of_keepsDirs (opened : t.Opened dir at_) (keeps : t.KeepsDirs next) :
    next.Opened dir at_ := by
  obtain ⟨place, placed, here⟩ := opened.placed
  exact opened_of_placed (place_of_keepsDirs keeps placed) here (keeps.dirs _ opened.isDir)
    (keeps.dirs _ opened.above)

/-- Below a directory that is there, what a path leads to is found from there. -/
theorem Opened.place_below (opened : t.Opened dir at_) (below : Path.Below dir more q)
    (goesOn : more ≠ []) : t.place q = match textFault? q with
      | some e => .error e
      | none => t.walk false at_ more := by
  obtain ⟨place, placed, here⟩ := opened.placed
  rw [place_eq] at placed ⊢
  split at placed
  · cases placed
  · have plain : (q.text.toList.getLast? == some '/') = false := by simpa using below.noSlash
    rw [below.names, below.isAbsolute, plain, resolve_append placed here opened.isDir goesOn]

theorem walk_name (t : Tree) (slash : Bool) (at_ : Location) (isName : Path.IsName n) :
    t.walk slash at_ [n] =
      if maxName < n.utf8ByteSize then .error .nameTooLong else .ok (.entry at_ n slash) := by
  rw [walk, if_neg isName.notHere, if_neg isName.notUp]

theorem Opened.place_join (opened : t.Opened dir at_) (isName : Path.IsName n) :
    t.place (dir.join n) = match textFault? (dir.join n) with
      | some e => .error e
      | none =>
        if maxName < n.utf8ByteSize then .error .nameTooLong else .ok (.entry at_ n false) := by
  rw [opened.place_below (Path.below_join dir isName) (by simp), walk_name t _ _ isName]

/-- A name leads to the same entry of a directory as long as the directory is there. -/
theorem Opened.place_join_eq (opened : t.Opened dir at_) (still : next.Opened dir at_)
    (isName : Path.IsName n) : next.place (dir.join n) = t.place (dir.join n) := by
  rw [opened.place_join isName, still.place_join isName]

theorem Opened.entry_of_place (opened : t.Opened dir at_) (isName : Path.IsName n)
    (placed : t.place (dir.join n) = .ok place) : place = .entry at_ n false := by
  rw [opened.place_join isName] at placed
  split at placed
  · cases placed
  · split at placed <;> cases placed
    rfl

theorem textFault?_join_ne (isName : Path.IsName n) :
    textFault? (dir.join n) ≠ some .notFound := by
  unfold textFault?
  rw [if_neg (Path.toList_join_ne_nil dir isName)]
  split
  · nofun
  · split <;> nofun

theorem Opened.place_join_ne (opened : t.Opened dir at_) (isName : Path.IsName n) :
    t.place (dir.join n) ≠ .error .notFound := by
  rw [opened.place_join isName]
  split
  · rename_i e fault
    intro same
    cases same
    exact textFault?_join_ne isName fault
  · split <;> nofun

/-- An ordinary name leads to the directory that has it. -/
theorem dir_of_step (isName : Path.IsName n) (went : t.step at_ n = .ok loc) :
    loc = at_ ++ [n] ∧ n.utf8ByteSize ≤ maxName ∧ t.node? (at_ ++ [n]) = some .dir := by
  rw [step, if_neg isName.notHere, if_neg isName.notUp] at went
  split at went
  · cases went
  · rename_i fits
    split at went
    · rename_i isDir
      cases went
      exact ⟨rfl, Nat.le_of_not_lt fits, isDir⟩
    · cases went
    · cases went

/-- Names are found as long as the directories are there that lie below the one they start from. -/
theorem walk_of_dirs (each : ∀ n ∈ names, Path.IsName n)
    (dirs : ∀ loc, at_ <+: loc → t.node? loc = some .dir → next.node? loc = some .dir)
    (walked : t.walk slash at_ names = .ok place) : next.walk slash at_ names = .ok place := by
  induction names generalizing at_ with
  | nil => exact walked
  | cons name names ih =>
    have isName := each name List.mem_cons_self
    cases names with
    | nil => rwa [walk_name _ _ _ isName] at walked ⊢
    | cons other names =>
      rw [walk_cons name (by simp)] at walked ⊢
      obtain ⟨loc, went, walked⟩ := exists_ok_of_bind walked
      obtain ⟨rfl, -, -⟩ := dir_of_step isName went
      rw [step_of_dirs (dirs _ (List.prefix_append _ _)) went]
      exact ih (fun n among => each n (List.mem_cons_of_mem _ among))
        (fun loc below => dirs loc ((List.prefix_append _ _).trans below)) walked

/-- A file below a directory that is there is read as long as all below the directory is as it
was. -/
theorem Opened.read_of_same (opened : t.Opened dir at_) (still : next.Opened dir at_)
    (below : Path.Below dir more q) (goesOn : more ≠ [])
    (same : ∀ loc, at_ <+: loc → next.node? loc = t.node? loc) (held : t.read q = .ok content) :
    next.read q = .ok content := by
  obtain ⟨⟨parent, name, placed⟩, there⟩ := placed_of_read held
  rw [below.lead, opened.lead_eq] at there
  have here : parent ++ [name] = at_ ++ more := by
    rw [place_entry placed, below.lead, opened.lead_eq]
  have placed' : next.place q = .ok (.entry parent name false) := by
    rw [opened.place_below below goesOn] at placed
    rw [still.place_below below goesOn]
    split at placed
    · cases placed
    · exact walk_of_dirs below.each (fun loc inside isDir => (same loc inside).trans isDir) placed
  refine read_of_placed placed' ?_
  rw [here, content?, same _ (List.prefix_append _ _)]
  exact there

/-- Names that lead somewhere lead through directories. -/
theorem isDir_of_walk (isName : Path.IsName n) (goesOn : more ≠ [])
    (walked : t.walk slash at_ (n :: more) = .ok place) :
    n.utf8ByteSize ≤ maxName ∧ t.node? (at_ ++ [n]) = some .dir := by
  rw [walk_cons n goesOn] at walked
  obtain ⟨loc, went, -⟩ := exists_ok_of_bind walked
  obtain ⟨-, fits, isDir⟩ := dir_of_step isName went
  exact ⟨fits, isDir⟩

/-- Where a path is not refused for its text, none is that the text begins with. -/
theorem textFault?_of_append {rest : String} (text : q.text = p.text ++ rest)
    (clean : textFault? q = none) (full : p.text.toList ≠ []) : textFault? p = none := by
  unfold textFault? at clean ⊢
  rw [text] at clean
  split at clean
  · cases clean
  · split at clean
    · cases clean
    · rename_i plain
      split at clean
      · cases clean
      · rename_i short
        rw [String.toList_append, List.mem_append, not_or] at plain
        rw [String.utf8ByteSize_append] at short
        rw [if_neg full, if_neg plain.1, if_neg (by omega)]

theorem textFault?_of_join (isName : Path.IsName n) (clean : textFault? (p.join n) = none)
    (full : p.text.toList ≠ []) : textFault? p = none := by
  obtain ⟨rest, text⟩ := Path.exists_text_join p isName
  exact textFault?_of_append text clean full

section MakeDirs

theorem makeDirs_of_opened (opened : t.Opened dir at_) : t.makeDirs dir = (.ok (), t) := by
  have isDir : t.isDir dir = true := by rw [Tree.isDir, opened.found]
  have refused : t.makeDir dir = .error .alreadyExists := by
    obtain ⟨place, placed, here⟩ := opened.placed
    have above := opened.above
    unfold makeDir
    cases place with
    | directory loc => simp [placed]
    | lost => cases here
    | entry parent name slash =>
      cases here
      rw [List.dropLast_concat] at above
      simp [placed, above, opened.isDir]
  rw [makeDirs, Path.ancestry, Path.ancestry.go, makeDirsAlong, refused]
  simp [isDir]

theorem Opened.makeDir_join_ne (opened : t.Opened dir at_) (isName : Path.IsName n) :
    t.makeDir (dir.join n) ≠ .error .notFound := by
  unfold makeDir
  split
  · rename_i e placed
    intro same
    cases same
    exact opened.place_join_ne isName placed
  · nofun
  · nofun
  · rename_i parent name slash placed
    cases opened.entry_of_place isName placed
    rw [if_neg (by simp [opened.isDir])]
    split <;> nofun

theorem Opened.grows_makeDir (opened : t.Opened dir at_) (below : Path.Below dir more q)
    (made : t.makeDir q = .ok next) : t.Grows next (· = at_ ++ more) :=
  (Tree.grows_makeDir made).imp fun loc same => by rw [same, below.lead, opened.lead_eq]

/-- The first of `paths` is made or not, and no other one if it lies below a directory that is
there. -/
theorem Opened.grows_makeDirsAlong (opened : t.Opened dir at_) (isName : Path.IsName n)
    (up : List Path) : t.Grows (makeDirsAlong (dir.join n :: up) t).2 (· = at_ ++ [n]) := by
  rw [makeDirsAlong]
  split
  · exact .refl t _
  · split
    · rename_i made
      exact opened.grows_makeDir (Path.below_join dir isName) made
    · rename_i missing
      exact absurd missing (opened.makeDir_join_ne isName)
    · exact .refl t _

/-- Two directories are made below one that is there, the upper one first if it is missing. -/
theorem Opened.grows_makeDirs (opened : t.Opened dir at_) (upper : Path.IsName n)
    (lower : Path.IsName m) : t.Grows (t.makeDirs ((dir.join n).join m)).2
      (fun loc => loc = at_ ++ [n] ∨ loc = at_ ++ [n, m]) := by
  obtain ⟨up, above⟩ : ∃ up, (dir.join n).ancestry = dir.join n :: up := ⟨_, rfl⟩
  have below : Path.Below dir [n, m] ((dir.join n).join m) :=
    (Path.below_join dir upper).join lower
  rw [makeDirs, Path.ancestry_join upper lower, above, makeDirsAlong]
  split
  · exact .refl t _
  · split
    · rename_i made
      exact (opened.grows_makeDir below made).imp fun _ => .inr
    · have first : t.Grows (makeDirsAlong (dir.join n :: up) t).2
          (fun loc => loc = at_ ++ [n] ∨ loc = at_ ++ [n, m]) :=
        (opened.grows_makeDirsAlong upper up).imp fun _ => .inl
      split
      · rename_i failed
        rwa [failed] at first
      · rename_i next ready
        rw [ready] at first
        have still := opened.of_keepsDirs first.keepsDirs
        split
        · rename_i made
          exact first.trans ((still.grows_makeDir below made).imp fun _ => .inr)
        · exact first
    · exact .refl t _

end MakeDirs

end OtaAgent.Files.Tree
