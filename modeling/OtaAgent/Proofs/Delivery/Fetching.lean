import OtaAgent.Delivery
import OtaAgent.Proofs.Files.Resumed

set_option autoImplicit false

namespace OtaAgent

open Files

namespace Delivery.Server

variable {s : Server} {file : Path} {t x made next : Tree} {loc : Location} {held : Option Bytes}
  {body : List Bytes} {whole : Bool} {exchange : Exchange}

theorem lead_partPath_ne (file : Path) (cwd : Location) :
    (partPath file).lead cwd ≠ file.lead cwd :=
  file.lead_suffixed_ne cwd (by decide) (by decide)

def makeParent (file : Path) : FileJob Unit := do
  if let some dir := file.parent? then
    let _ ← Job.attempt (.makeDirs dir) .io

/-- Moves the draft of `file` into place if it is whole. -/
def conclude (s : Server) (file : Path) (whole : Bool) : FileJob Unit := do
  if !whole then throw (.delivery (.readFailed (s.urlOf file)))
  let _ ← Job.attempt (.rename (partPath file) file) (.file (.moveIntoPlace (partPath file)))

/-- Fills the draft of `file` with a body and moves it into place. -/
def fill (s : Server) (file : Path) (body : List Bytes) (whole : Bool) : FileJob Unit := do
  let _ ← Job.attempt (.create (partPath file)) (.file (.create (partPath file)))
  writeBody (partPath file) body
  s.conclude file whole

theorem receive_answered (s : Server) (file : Path) (body : List Bytes) (whole : Bool) :
    s.receive file (.answered 200 body whole) =
      makeParent file >>= fun _ => s.fill file body whole := by
  unfold receive makeParent
  dsimp only
  rw [if_neg (by decide)]
  cases file.parent? with
  | none => rfl
  | some dir =>
    show _ = (Job.attempt (.makeDirs dir) Error.io >>= fun _ => pure ()) >>=
      fun _ => s.fill file body whole
    rw [Job.bind_assoc]
    rfl

/-- Any other exchange is refused before anything is done. -/
theorem receive_refused (s : Server) (file : Path)
    (other : ∀ body whole, exchange ≠ .answered 200 body whole) :
    ∃ e, s.receive file exchange = throw e := by
  cases exchange with
  | failed => exact ⟨_, rfl⟩
  | answered status body whole =>
    have bad : status ≠ 200 := by
      rintro rfl
      exact other body whole rfl
    exact ⟨_, if_pos bad⟩

section Parent

theorem resumes_makeParent (file : Path) : Job.Resumes (makeParent file) := by
  unfold makeParent
  cases file.parent? with
  | none => exact .pure ()
  | some dir => exact (Job.resumes_makeDirs dir Error.io).map fun _ => ()

/-- The directory of `file` or one above it lies at `loc`. -/
def OnWay (file : Path) (cwd loc : Location) : Prop :=
  ∃ dir, file.parent? = some dir ∧ ∃ q ∈ dir.ancestry, loc = q.lead cwd

theorem alters_of_leaves_makeParent (left : (makeParent file).Leaves t x) :
    t.Alters x (fun _ => False) (OnWay file t.cwd) := by
  unfold makeParent at left
  cases up : file.parent? with
  | none =>
    rw [up] at left
    obtain rfl := Job.leaves_pure.mp left
    exact .refl x _ _
  | some dir =>
    rw [up] at left
    have making : (Job.attempt (.makeDirs dir) Error.io).Leaves t x := by
      rcases Job.leaves_bind.mp left with left | ⟨_, next, ran, later⟩
      · exact left
      · have whole := Job.leaves_runOn (Job.attempt (.makeDirs dir) Error.io) t
        rw [ran] at whole
        exact Job.leaves_pure.mp later ▸ whole
    exact (Job.leaves_attempt.mp making).alters_makeDirs.imp (fun _ => id)
      fun loc there => ⟨dir, up, there⟩

end Parent

section Filling

/-- Writing on a file never fails once it could be opened. -/
theorem runOn_writeBody {part : Path} (aimed : t.target part = .ok (loc, held)) (bytes : Bytes)
    (body : List Bytes) : (writeBody part body).runOn (t.put loc (.file bytes)) =
      (.ok (), t.put loc (.file (bytes ++ body.flatten))) := by
  induction body generalizing bytes with
  | nil =>
    rw [List.flatten_nil, List.append_nil]
    rfl
  | cons piece body ih =>
    rw [writeBody, Job.runOn_bind, Job.runOn_attempt]
    simp only [Op.apply, Tree.append_put aimed, settle, mapError_ok]
    rw [ih, List.flatten_cons, List.append_assoc]

theorem exists_of_leaves_writeBody {part : Path} (aimed : t.target part = .ok (loc, held))
    {bytes : Bytes} (left : (writeBody part body).Leaves (t.put loc (.file bytes)) x) :
    ∃ written, x = t.put loc (.file written) := by
  induction body generalizing bytes with
  | nil => exact ⟨bytes, Job.leaves_pure.mp left⟩
  | cons piece body ih =>
    rcases Job.leaves_bind.mp left with left | ⟨_, next, ran, later⟩
    · cases Job.leaves_attempt.mp left with
      | before => exact ⟨bytes, rfl⟩
      | after =>
        simp only [Op.apply, Tree.append_put aimed, settle]
        exact ⟨_, rfl⟩
      | writing part wrote =>
        rw [Tree.append_put aimed] at wrote
        exact ⟨_, (Except.ok.inj wrote).symm⟩
    · have appended := Job.settle_ok (Job.runOn_attempt_ok ran)
      rw [Tree.append_put aimed] at appended
      obtain rfl := Except.ok.inj appended
      exact ih later

theorem runOn_create (aimed : t.target (partPath file) = .ok (loc, held)) :
    (Job.attempt (.create (partPath file)) (Error.file (.create (partPath file)))).runOn t =
      (.ok [], t.put loc (.file [])) := by
  simp only [Job.runOn_attempt, Op.apply, Tree.create_of_target aimed, settle, mapError_ok]

theorem runOn_fill (aimed : t.target (partPath file) = .ok (loc, held)) :
    (s.fill file body whole).runOn t =
      (s.conclude file whole).runOn (t.put loc (.file body.flatten)) := by
  rw [fill, Job.runOn_bind, runOn_create aimed]
  dsimp only
  rw [Job.runOn_bind, runOn_writeBody aimed, List.nil_append]

/-- The draft is begun anew, whatever there is of it. -/
theorem runOn_fill_put (aimed : t.target (partPath file) = .ok (loc, held)) (bytes : Bytes) :
    (s.fill file body whole).runOn (t.put loc (.file bytes)) =
      (s.fill file body whole).runOn t := by
  rw [runOn_fill (Tree.target_put aimed bytes), runOn_fill aimed, Tree.put_put]

theorem runOn_conclude : (s.conclude file whole).runOn t =
    if whole then
      match t.rename (partPath file) file with
      | .ok next => (.ok (), next)
      | .error e => (.error (.file (.moveIntoPlace (partPath file)) e), t)
    else (.error (.delivery (.readFailed (s.urlOf file))), t) := by
  cases whole with
  | false => rfl
  | true =>
    show (Job.attempt (.rename (partPath file) file) _ >>= fun _ => pure ()).runOn t = _
    rw [Job.runOn_bind, Job.runOn_attempt, Op.apply]
    cases t.rename (partPath file) file <;> rfl

/-- A file is put in place if it is whole, and in one step. -/
theorem conclude_iff : (s.conclude file whole).runOn t = (.ok (), next) ↔
    whole = true ∧ t.rename (partPath file) file = .ok next := by
  rw [runOn_conclude]
  cases whole with
  | false => simp
  | true => cases t.rename (partPath file) file <;> simp

theorem left_of_conclude (left : (s.conclude file whole).Leaves t x) :
    x = t ∨ (s.conclude file whole).runOn t = (.ok (), x) := by
  cases whole with
  | false => exact .inl (Job.leaves_throw.mp left)
  | true =>
    have moving : Job.UntilLast (· = t) (s.conclude file true) :=
      (Job.untilLast_rename : Job.UntilLast (· = t) (Job.attempt (.rename (partPath file) file)
        (Error.file (.moveIntoPlace (partPath file))))).bind_pure
    rcases moving t x rfl left with same | done
    · exact .inl same
    · rw [runOn_conclude, if_pos rfl] at done ⊢
      cases made : t.rename (partPath file) file with
      | ok next =>
        rw [made] at done
        exact .inr (by rw [done])
      | error e =>
        rw [made] at done
        exact .inl done

/-- What is left of `t` when a draft is filled, until the last step. -/
theorem left_of_fill (left : (s.fill file body whole).Leaves t x) :
    x = t ∨ (∃ loc held bytes, t.target (partPath file) = .ok (loc, held) ∧
      x = t.put loc (.file bytes)) ∨ (s.fill file body whole).runOn t = (.ok (), x) := by
  rcases Job.leaves_bind.mp left with left | ⟨_, begun, ran, left⟩
  · cases Job.leaves_attempt.mp left with
    | before => exact .inl rfl
    | after =>
      cases aimed : t.target (partPath file) with
      | error e =>
        left
        simp only [Op.apply, Tree.create, aimed, Except.map, settle]
      | ok target =>
        obtain ⟨loc, held⟩ := target
        right; left
        refine ⟨loc, held, [], rfl, ?_⟩
        simp only [Op.apply, Tree.create_of_target aimed, settle]
  · obtain ⟨⟨loc, held⟩, aimed, rfl⟩ :=
      exists_ok_of_map (Job.settle_ok (Job.runOn_attempt_ok ran) : t.create _ = _)
    right
    rcases Job.leaves_bind.mp left with left | ⟨_, filled, ran, left⟩
    · obtain ⟨written, rfl⟩ := exists_of_leaves_writeBody aimed left
      exact .inl ⟨loc, held, written, aimed, rfl⟩
    · rw [runOn_writeBody aimed] at ran
      cases ran
      rcases left_of_conclude left with rfl | done
      · exact .inl ⟨loc, held, _, aimed, rfl⟩
      · exact .inr (by rw [runOn_fill aimed]; exact done)

end Filling

section Attempts

/-- Until its last step, an attempt to receive `file` has made directories on the way to it, and
may have written something beside it. -/
inductive Begun (file : Path) (t : Tree) : Tree → Prop
  | making {x : Tree} (left : (makeParent file).Leaves t x) : Begun file t x
  | filling {made : Tree} {loc : Location} {held : Option Bytes} (bytes : Bytes)
      (ready : (makeParent file).runOn t = (.ok (), made))
      (aimed : made.target (partPath file) = .ok (loc, held)) :
      Begun file t (made.put loc (.file bytes))

/-- An attempt that is cut off has not touched the target, or has ended well. -/
theorem begun_of_leaves (left : (s.receive file exchange).Leaves t x) :
    Begun file t x ∨ (s.receive file exchange).runOn t = (.ok (), x) := by
  by_cases answered : ∃ body whole, exchange = .answered 200 body whole
  · obtain ⟨body, whole, rfl⟩ := answered
    rw [receive_answered] at left ⊢
    rcases Job.leaves_bind.mp left with left | ⟨_, made, ready, left⟩
    · exact .inl (.making left)
    · have whole := Job.leaves_runOn (makeParent file) t
      rw [ready] at whole
      rcases left_of_fill left with rfl | ⟨loc, held, bytes, aimed, rfl⟩ | done
      · exact .inl (.making whole)
      · exact .inl (.filling bytes ready aimed)
      · right
        rw [Job.runOn_bind, ready]
        exact done
  · obtain ⟨e, refused⟩ := s.receive_refused file fun body whole same =>
      answered ⟨body, whole, same⟩
    rw [refused] at left
    obtain rfl := Job.leaves_throw.mp left
    exact .inl (.making (Script.leaves_start _ x))

theorem begun_of_failed {e : Error} (failed : (s.receive file exchange).runOn t = (.error e, x)) :
    Begun file t x := by
  have left := Job.leaves_runOn (s.receive file exchange) t
  rw [failed] at left
  refine (begun_of_leaves left).resolve_right fun done => ?_
  rw [failed] at done
  cases done

/-- An attempt changes the draft only, before its last step. -/
theorem Begun.alters (begun : Begun file t x) :
    t.Alters x (· = (partPath file).lead t.cwd) (OnWay file t.cwd) := by
  cases begun with
  | making left => exact (alters_of_leaves_makeParent left).imp (fun _ => False.elim) fun _ => id
  | filling bytes ready aimed =>
    have first := Job.leaves_runOn (makeParent file) t
    rw [ready] at first
    have made := alters_of_leaves_makeParent first
    have written : Tree.Alters _ _ _ (OnWay file t.cwd) :=
      Tree.alters_target aimed (.file bytes)
    rw [made.cwd] at written
    exact (made.imp (fun _ => False.elim) fun _ => id).trans written

theorem Begun.keepsDirs (begun : Begun file t x) (sound : t.Sound) : t.KeepsDirs x := by
  cases begun with
  | making left => exact (resumes_makeParent file).builds t x sound left
  | filling bytes ready aimed =>
    have first := (resumes_makeParent file).builds t _ sound (Job.leaves_runOn _ t)
    rw [ready] at first
    exact first.trans (Tree.keepsDirs_target aimed _)

/-- A later attempt ends as it would have ended without the first one. -/
theorem Begun.receive_iff (begun : Begun file t x) :
    (s.receive file exchange).runOn x = (.ok (), next) ↔
      (s.receive file exchange).runOn t = (.ok (), next) := by
  by_cases answered : ∃ body whole, exchange = .answered 200 body whole
  · obtain ⟨body, whole, rfl⟩ := answered
    rw [receive_answered]
    cases begun with
    | making left =>
      rw [Job.runOn_bind_iff, Job.runOn_bind_iff]
      simp only [(resumes_makeParent file).again t x _ _ left]
    | filling bytes ready aimed =>
      have again := (resumes_makeParent file).settled t _ () _ ready
        (Tree.keepsDirs_target aimed (.file bytes))
      rw [Job.runOn_bind, Job.runOn_bind, ready, again]
      dsimp only
      rw [runOn_fill_put aimed]
  · obtain ⟨e, refused⟩ := s.receive_refused file fun body whole same =>
      answered ⟨body, whole, same⟩
    simp [refused]

/-- An attempt that succeeds has been given the body as a whole, and has moved it into place. -/
theorem exists_of_received (ran : (s.receive file exchange).runOn t = (.ok (), next)) :
    ∃ body made loc held, exchange = .answered 200 body true ∧
      (makeParent file).runOn t = (.ok (), made) ∧
      made.target (partPath file) = .ok (loc, held) ∧
      (made.put loc (.file body.flatten)).rename (partPath file) file = .ok next := by
  by_cases answered : ∃ body whole, exchange = .answered 200 body whole
  · obtain ⟨body, whole, rfl⟩ := answered
    rw [receive_answered] at ran
    obtain ⟨_, made, ready, filled⟩ := Job.runOn_bind_ok ran
    cases aimed : made.target (partPath file) with
    | error e =>
      rw [fill, Job.runOn_bind, Job.runOn_attempt, Op.apply, Tree.create, aimed] at filled
      cases filled
    | ok target =>
      obtain ⟨loc, held⟩ := target
      rw [runOn_fill aimed, conclude_iff] at filled
      obtain ⟨rfl, moved⟩ := filled
      exact ⟨body, made, loc, held, rfl, ready, aimed, moved⟩
  · obtain ⟨e, refused⟩ := s.receive_refused file fun body whole same =>
      answered ⟨body, whole, same⟩
    rw [refused] at ran
    cases ran

end Attempts

section Fetches

variable {o o' : Outside} {site middle later last : Site Traffic}

/-- The file holds what was fetched, its draft is gone, and nothing else has changed but that
directories may have been made on the way to it. -/
structure Arrived (file : Path) (content : Bytes) (t next : Tree) : Prop where
  reads : next.read file = .ok content
  noDraft : next.node? ((partPath file).lead t.cwd) = none
  alters : t.Alters next (fun loc => loc = file.lead t.cwd ∨ loc = (partPath file).lead t.cwd)
    (OnWay file t.cwd)
  keepsDirs : t.KeepsDirs next

/-- The file is there as it was, or still not there, and nothing has changed but its draft and
directories that were made on the way to it. -/
structure Spared (file : Path) (t next : Tree) : Prop where
  content : next.content? (file.lead t.cwd) = t.content? (file.lead t.cwd)
  reads : ∀ held, t.read file = .ok held → next.read file = .ok held
  alters : t.Alters next (· = (partPath file).lead t.cwd) (OnWay file t.cwd)
  keepsDirs : t.KeepsDirs next

theorem arrived_of_received (sound : t.Sound)
    (ran : (s.receive file exchange).runOn t = (.ok (), next)) :
    ∃ body, exchange = .answered 200 body true ∧ Arrived file body.flatten t next := by
  obtain ⟨body, made, loc, held, answered, ready, aimed, moved⟩ := exists_of_received ran
  have begun : Begun file t _ := .filling body.flatten ready aimed
  have dirs := begun.keepsDirs sound
  have changed := begun.alters
  have sound' := sound.of_keepsDirs dirs
  have draft := Tree.read_put aimed body.flatten
  have gone := Tree.node?_source_of_rename moved (lead_partPath_ne file _)
  have replaced : Tree.Alters _ next _ (OnWay file t.cwd) := Tree.alters_rename moved
  rw [changed.cwd] at gone replaced
  refine ⟨body, answered, Tree.read_of_rename sound' draft moved, gone, ?_,
    dirs.trans (Tree.keepsDirs_rename sound' moved)⟩
  exact (changed.imp (fun _ => .inr) fun _ => id).trans
    (replaced.imp (fun _ => Or.symm) fun _ => id)

theorem Begun.spared (begun : Begun file t x) (sound : t.Sound) : Spared file t x := by
  have alters := begun.alters
  have dirs := begun.keepsDirs sound
  have content : x.content? (file.lead t.cwd) = t.content? (file.lead t.cwd) :=
    alters.keeps.content _ fun same => lead_partPath_ne file t.cwd same.symm
  exact ⟨content, fun held found => Tree.read_of_keepsDirs dirs found
    (content.trans (Tree.placed_of_read found).2), alters, dirs⟩

theorem Spared.refl (file : Path) (t : Tree) : Spared file t t :=
  ⟨rfl, fun _ => id, .refl t _ _, .refl t⟩

theorem Spared.trans (first : Spared file t x) (second : Spared file x next) :
    Spared file t next := by
  obtain ⟨content, reads, alters, dirs⟩ := second
  rw [first.alters.cwd] at content alters
  exact ⟨content.trans first.content, fun held found => reads held (first.reads held found),
    first.alters.trans alters, first.keepsDirs.trans dirs⟩

def request (s : Server) (file : Path) : Request := ⟨s.urlOf file, s.timeout⟩

theorem bring_ok_iff : s.bring o file site = (.ok (), last) ↔
    (s.receive file (o.exchange site.own (s.request file))).runOn site.files =
        (.ok (), last.files) ∧
      last.own = { site.own with requests := site.own.requests ++ [s.request file] } := by
  unfold bring Hook.ofJob request
  dsimp only
  generalize (s.receive file _).runOn site.files = ran
  obtain ⟨result, files⟩ := ran
  cases last
  cases result <;> simp [mapError_ok, mapError_error, eq_comm, and_comm]

theorem exists_of_bring_error {e : Failure} (failed : s.bring o file site = (.error e, last)) :
    ∃ cause, (s.receive file (o.exchange site.own (s.request file))).runOn site.files =
      (.error cause, last.files) := by
  unfold bring Hook.ofJob at failed
  dsimp only at failed
  cases ran : (s.receive file (o.exchange site.own (s.request file))).runOn site.files with
  | mk result files =>
    rw [request] at ran
    rw [ran] at failed
    cases result with
    | ok u => cases failed
    | error cause =>
      cases failed
      exact ⟨cause, rfl⟩

/-- Fetches of the file have failed one after the other, from the first site to the second one.
What lies beyond the device may be another each time. -/
inductive Failing (s : Server) (file : Path) : Site Traffic → Site Traffic → Prop
  | never (site : Site Traffic) : Failing s file site site
  | again {site middle later : Site Traffic} {o : Outside} {e : Failure}
      (earlier : Failing s file site middle) (failed : s.bring o file middle = (.error e, later)) :
      Failing s file site later

theorem Failing.spared (failing : s.Failing file site later) (sound : site.files.Sound) :
    Spared file site.files later.files := by
  induction failing with
  | never => exact .refl file _
  | again earlier failed ih =>
    obtain ⟨cause, ran⟩ := exists_of_bring_error failed
    have still := sound.of_keepsDirs ih.keepsDirs
    exact ih.trans ((begun_of_failed ran).spared still)

theorem Failing.receive_iff (failing : s.Failing file site later) :
    (s.receive file exchange).runOn later.files = (.ok (), next) ↔
      (s.receive file exchange).runOn site.files = (.ok (), next) := by
  induction failing with
  | never => rfl
  | again earlier failed ih =>
    obtain ⟨cause, ran⟩ := exists_of_bring_error failed
    rw [(begun_of_failed ran).receive_iff, ih]

/-- A fetch brings the whole body or leaves the target as it was; and whatever fetches have failed
before, one that is given the same answer by the server leaves the same files as without them. -/
theorem fetch_all_or_nothing (s : Server) (file : Path) (o : Outside)
    (sound : site.files.Sound) (failing : s.Failing file site later) :
    (∀ last, s.bring o file site = (.ok (), last) →
      ∃ body, o.exchange site.own (s.request file) = .answered 200 body true ∧
        Arrived file body.flatten site.files last.files) ∧
    (∀ e last, s.bring o file site = (.error e, last) → Spared file site.files last.files) ∧
    Spared file site.files later.files ∧
    ∀ o' : Outside,
      o'.exchange later.own (s.request file) = o.exchange site.own (s.request file) →
      ∀ files, (∃ last, s.bring o' file later = (.ok (), last) ∧ last.files = files) ↔
        ∃ last, s.bring o file site = (.ok (), last) ∧ last.files = files := by
  refine ⟨fun last brought => ?_, fun e last failed => ?_, failing.spared sound,
    fun o' same files => ?_⟩
  · exact arrived_of_received sound (bring_ok_iff.mp brought).1
  · obtain ⟨cause, ran⟩ := exists_of_bring_error failed
    exact (begun_of_failed ran).spared sound
  · have leaves (o : Outside) (site : Site Traffic) :
        (∃ last, s.bring o file site = (.ok (), last) ∧ last.files = files) ↔
          (s.receive file (o.exchange site.own (s.request file))).runOn site.files =
            (.ok (), files) := by
      constructor
      · rintro ⟨last, brought, rfl⟩
        exact (bring_ok_iff.mp brought).1
      · intro ran
        exact ⟨⟨_, files⟩, bring_ok_iff.mpr ⟨ran, rfl⟩, rfl⟩
    rw [leaves, leaves, same]
    exact failing.receive_iff

/-- An answer that broke off has left a draft, and the next fetch brings the whole file. -/
theorem fetch_after_break :
    let s : Server := ⟨"http://server", 300⟩
    let file : Path := ⟨"/packages/app"⟩
    let broken : Outside := ⟨fun _ _ t => (.missing, t), fun _ _ => .answered 200 [[1]] false⟩
    let whole : Outside := ⟨fun _ _ t => (.missing, t), fun _ _ => .answered 200 [[1], [2]] true⟩
    let site : Site Traffic := ⟨.none, Tree.empty []⟩
    let later := (s.bring broken file site).2
    s.Failing file site later ∧ later.files.read (partPath file) = .ok [1] ∧
      ∃ last, s.bring whole file later = (.ok (), last) ∧ last.files.read file = .ok [1, 2] := by
  intro s file broken whole site later
  have sound : site.files.Sound := .inr rfl
  have refused : (s.bring broken file site).1.toOption = none := by decide +kernel
  have granted : (s.bring whole file site).1.toOption = some () := by decide +kernel
  have failing : s.Failing file site later := by
    cases fails : (s.bring broken file site).1 with
    | ok u =>
      rw [fails] at refused
      cases refused
    | error e => exact .again (.never site) (Prod.ext fails rfl)
  have brings : s.bring whole file site = (.ok (), (s.bring whole file site).2) :=
    Prod.ext (eq_ok_of_toOption granted) rfl
  obtain ⟨arrives, -, -, again⟩ := fetch_all_or_nothing s file whole sound failing
  obtain ⟨last, brought, same⟩ := (again whole rfl _).mpr ⟨_, brings, rfl⟩
  obtain ⟨body, answered, arrived⟩ := arrives _ brings
  cases answered
  exact ⟨failing, eq_ok_of_toOption (by decide +kernel), last, brought, same ▸ arrived.reads⟩

end Fetches

end Delivery.Server
end OtaAgent
