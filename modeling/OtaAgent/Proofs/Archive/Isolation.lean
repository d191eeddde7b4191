import OtaAgent.Proofs.Archive.Refinement

set_option autoImplicit false

namespace OtaAgent.Archive

open Files

/-- The file that the request speaks of is not backed up in the place of the history of `other`. -/
def Request.SparesHistory (a : Archive) (package other : String) (t : Tree) : Request → Prop
  | .record r => (a.backupPath package r.version r.file).lead t.cwd ≠ a.historyAt t other
  | .reinstate _ => True

/-- The files after `requests`, each about the package that it comes with. -/
def serve (a : Archive) (t : Tree) (requests : List (String × Request)) : Tree :=
  requests.foldl (fun t entry => ((entry.2.job a entry.1).runOn t).2) t

/-- From the working directory `cwd`, the history of `package` can be read and says `said`. -/
structure Stands (a : Archive) (cwd : Location) (package : String) (said : Option History)
    (t : Tree) : Prop where
  cwd : t.cwd = cwd
  reach : a.InReach t package
  recorded : a.recorded? t package = said

variable {a : Archive} {package other : String} {t next : Tree} {cwd : Location}
  {said : Option History}

theorem historyAt_ne (different : package ≠ other) :
    a.historyAt t other ≠ a.historyAt t package := by
  simp [historyAt, different.symm]

/-- A job that writes elsewhere leaves a history as it stands. -/
theorem maintains_of_within {ε α : Type} {places : Location → Prop} {job : Job ε α}
    (valid : canNameFile other = true) (within : Job.Within cwd places job)
    (builds : Job.Builds job) (apart : ¬ places (a.versionDir.lead cwd ++ [other])) :
    Job.Maintains (a.Stands cwd other said) job := by
  intro t stands
  obtain rfl := stands.cwd
  have keeps := within t rfl
  exact {
    cwd := keeps.cwd
    reach := stands.reach.of_content valid (builds t stands.reach.sound) (keeps.content _ apart)
    recorded := (recorded?_of_keeps keeps apart).trans stands.recorded }

/-- An empty file says no history. -/
theorem recorded?_of_empty (there : t.content? (a.historyAt t package) = some []) :
    a.recorded? t package = none := by
  have unread : History.parse? "" = none := by decide +kernel
  have empty : Text.Utf8.decode? [] = some "" := rfl
  simp [recorded?, there, empty, interpret, unread, Except.toOption]

/-- A file that is opened, and is made if it is missing, says what it said. -/
theorem recorded?_of_opened (cwd : next.cwd = t.cwd)
    (opened : next.content? (a.historyAt t package) =
      some ((t.content? (a.historyAt t package)).getD [])) :
    a.recorded? next package = a.recorded? t package := by
  cases before : t.content? (a.historyAt t package) with
  | some held =>
    rw [before, Option.getD_some] at opened
    rw [recorded?, recorded?, historyAt_of_cwd cwd, opened, before]
  | none =>
    rw [before, Option.getD_none, ← historyAt_of_cwd cwd] at opened
    rw [recorded?_of_empty opened, recorded?, before]
    rfl

/-- A lock that is opened leaves every history as it stands, even one whose file is the lock. -/
theorem maintains_touch_lock (isName : Path.IsName package) (valid : canNameFile other = true)
    (fault : IoFault → Error) :
    Job.Maintains (a.Stands cwd other said) (Job.attempt (.touch (a.lockPath package)) fault) := by
  intro t stands
  rw [Job.runOn_attempt]
  cases touched : t.touch (a.lockPath package) with
  | error e => simpa [Op.apply, settle, touched]
  | ok next =>
    have opened : (Op.apply t (.touch (a.lockPath package))).2 = next := by
      simp [Op.apply, settle, touched]
    rw [opened]
    have keeps := Tree.keeps_touch touched
    have keepsDirs := Tree.keepsDirs_touch touched
    by_cases lock : other = "." ++ package ++ ".lock"
    · subst lock
      have content := Tree.content?_of_touch touched
      rw [lead_lock isName] at content
      obtain ⟨⟨_, _⟩, aimed, -⟩ := exists_ok_of_map touched
      obtain ⟨parent, name, placed, -, -⟩ := Tree.placed_of_target aimed
      have here := (Tree.place_entry placed).trans (lead_lock isName)
      obtain ⟨rfl, names⟩ := List.append_inj' here rfl
      obtain rfl : name = "." ++ package ++ ".lock" := by simpa using names
      refine ⟨keeps.cwd.trans stands.cwd, ?_, ?_⟩
      · exact inReach_of_placed valid (stands.reach.sound.of_keepsDirs keepsDirs)
          (Tree.place_of_keepsDirs keepsDirs placed)
      · exact (recorded?_of_opened keeps.cwd content).trans stands.recorded
    · have outside : a.historyAt t other ≠ (a.lockPath package).lead t.cwd := by
        rw [lead_lock isName]
        exact historyAt_ne (Ne.symm lock)
      exact {
        cwd := keeps.cwd.trans stands.cwd
        reach := stands.reach.of_content valid keepsDirs (keeps.content _ outside)
        recorded := (recorded?_of_keeps keeps outside).trans stands.recorded }

/-- What is written elsewhere leaves a history as it stands. -/
theorem attempts_stands {op : Op} (valid : canNameFile other = true) (builds : op.Builds)
    (apart : ¬ op.Touches cwd (a.versionDir.lead cwd ++ [other])) :
    Job.Attempts (fun _ (job : FileJob _) => Job.Maintains (a.Stands cwd other said) job) op :=
  fun _ => maintains_of_within valid (Job.within_attempt fun _ => id) (Job.builds_attempt builds)
    apart

theorem replacing_stands (isName : Path.IsName package) (valid : canNameFile other = true)
    (different : package ≠ other) (noDraft : package ++ ".tmp" ≠ other) :
    a.Replacing (fun _ => Job.Maintains (a.Stands cwd other said))
      (fun _ => Job.Maintains (a.Stands cwd other said)) package := by
  have apart : a.versionDir.lead cwd ++ [other] ≠ (a.draftPath package).lead cwd := by
    rw [draftPath_eq_join isName, Path.lead_join _ _ (isName_draft isName)]
    simp [noDraft.symm]
  have apart' : a.versionDir.lead cwd ++ [other] ≠ (a.historyPath package).lead cwd := by
    rw [historyPath, Path.lead_join _ _ isName]
    simp [different.symm]
  exact {
    lock := maintains_touch_lock isName valid
    create := attempts_stands valid trivial apart
    write := fun _ => attempts_stands valid trivial apart
    rename := attempts_stands valid trivial fun there => there.elim apart apart' }

theorem maintains_record (valid : canNameFile other = true) {r : Receipt}
    (different : r.package ≠ other) (noDraft : r.package ++ ".tmp" ≠ other)
    (outside : (a.backupPath r.package r.version r.file).lead cwd ≠
      a.versionDir.lead cwd ++ [other]) :
    Job.Maintains (a.Stands cwd other said) (a.record r) :=
  Job.rules_maintains.record (fun _ => attempts_stands valid trivial id)
    (fun _ => ⟨fun _ _ => attempts_stands valid trivial id,
      attempts_stands valid trivial outside.symm⟩)
    fun named => replacing_stands (isName_of_canNameFile named) valid different noDraft

theorem maintains_reinstate (valid : canNameFile other = true) (different : package ≠ other)
    (noDraft : package ++ ".tmp" ≠ other) (version : String) :
    Job.Maintains (a.Stands cwd other said) (a.reinstate package version) :=
  Job.rules_maintains.reinstate (fun _ => attempts_stands valid trivial id)
    fun named => replacing_stands (isName_of_canNameFile named) valid different noDraft

/-- One request, granted or refused, leaves the histories of other packages as they stand. -/
theorem Stands.job {q : Request} (stands : a.Stands cwd other said t)
    (valid : canNameFile other = true) (different : package ≠ other)
    (noDraft : package ++ ".tmp" ≠ other) (spares : q.SparesHistory a package other t) :
    a.Stands cwd other said ((q.job a package).runOn t).2 := by
  obtain rfl := stands.cwd
  cases q with
  | record r =>
    exact maintains_record (r := { r with package }) valid different noDraft spares t stands
  | reinstate version => exact maintains_reinstate valid different noDraft version t stands

theorem Request.sparesHistory_of_cwd {q : Request} (same : next.cwd = t.cwd)
    (spares : q.SparesHistory a package other t) : q.SparesHistory a package other next := by
  cases q with
  | record r =>
    unfold SparesHistory at spares ⊢
    rwa [historyAt_of_cwd same, same]
  | reinstate version => trivial

/-- Requests about other packages, none of whose drafts has the name of `other`, leave its history
as it stands. -/
theorem Stands.serve {requests : List (String × Request)} (stands : a.Stands cwd other said t)
    (valid : canNameFile other = true)
    (apart : ∀ package q, (package, q) ∈ requests →
      package ≠ other ∧ package ++ ".tmp" ≠ other ∧ q.SparesHistory a package other t) :
    a.Stands cwd other said (a.serve t requests) := by
  induction requests generalizing t with
  | nil => exact stands
  | cons entry rest ih =>
    obtain ⟨package, q⟩ := entry
    obtain ⟨different, noDraft, spares⟩ := apart package q List.mem_cons_self
    have first := stands.job valid different noDraft spares
    refine ih first fun package q among => ?_
    obtain ⟨different, noDraft, spares⟩ := apart package q (List.mem_cons_of_mem _ among)
    exact ⟨different, noDraft,
      Request.sparesHistory_of_cwd (first.cwd.trans stands.cwd.symm) spares⟩

/-- Packages are kept apart: what is read of one is what was read before any requests about others,
granted or refused, unless one of these has it for its draft. -/
theorem get?_of_serve {requests : List (String × Request)} (valid : canNameFile other = true)
    (reach : a.InReach t other)
    (apart : ∀ package q, (package, q) ∈ requests →
      package ≠ other ∧ package ++ ".tmp" ≠ other ∧ q.SparesHistory a package other t) :
    a.get? (a.serve t requests) other = a.get? t other := by
  have stands : a.Stands t.cwd other (a.recorded? t other) t := ⟨rfl, reach, rfl⟩
  have served := stands.serve valid apart
  rw [reach.get?_eq valid, served.reach.get?_eq valid, served.recorded]

/-- An install of one package that is refused leaves the history of another. -/
theorem get?_of_serve_refused :
    let a : Archive := ⟨⟨"/v"⟩, ⟨"/b"⟩⟩
    let t := ((Tree.empty []).put ["v"] .dir).put ["v", ".app.lock"]
      (.file (Text.Utf8.encode (History.fresh "1").text))
    let requests := [("app", Request.record ⟨"", "2", none, none, true, ⟨"/new"⟩⟩),
      ("app", Request.reinstate "1")]
    (canNameFile ".app.lock" = true ∧ a.InReach t ".app.lock" ∧
      ∀ package q, (package, q) ∈ requests → package ≠ ".app.lock" ∧
        package ++ ".tmp" ≠ ".app.lock" ∧ q.SparesHistory a package ".app.lock" t) ∧
      a.get? (a.serve t requests) ".app.lock" = a.get? t ".app.lock" ∧
      a.get? t ".app.lock" = some (.fresh "1") := by
  intro a t requests
  have valid : canNameFile ".app.lock" = true := by decide +kernel
  have placed : t.place (a.historyPath ".app.lock") = .ok (.entry ["v"] ".app.lock" false) :=
    eq_ok_of_toOption (by decide +kernel)
  have reach : a.InReach t ".app.lock" := inReach_of_placed valid (.inr rfl) placed
  have apart (package : String) (q : Request) (among : (package, q) ∈ requests) :
      package ≠ ".app.lock" ∧ package ++ ".tmp" ≠ ".app.lock" ∧
        q.SparesHistory a package ".app.lock" t := by
    rcases List.mem_cons.mp among with first | among
    · cases first
      unfold Request.SparesHistory
      decide +kernel
    · obtain ⟨rfl, rfl⟩ := Prod.mk.inj (List.mem_singleton.mp among)
      exact ⟨by decide +kernel, by decide +kernel, trivial⟩
  exact ⟨⟨valid, reach, apart⟩, get?_of_serve valid reach apart, by decide +kernel⟩

theorem canNameFile_draft (valid : canNameFile package = true) :
    canNameFile (package ++ ".tmp") = true := by
  have isName := isName_draft (isName_of_canNameFile valid)
  simp only [canNameFile, Bool.and_eq_true] at valid ⊢
  refine ⟨⟨⟨?_, ?_⟩, ?_⟩, ?_⟩
  · simp
  · simpa using isName.notHere
  · simpa using isName.notUp
  · rw [String.toList_append, List.all_append, valid.2]
    rfl

/-- Nothing is read where there is no file. -/
theorem get?_of_none (valid : canNameFile package = true)
    (gone : t.content? (a.historyAt t package) = none) : a.get? t package = none := by
  cases found : a.get? t package with
  | none => rfl
  | some h =>
    have said := recorded?_of_load valid (congrArg Prod.fst (runOn_load_of_get? found))
    rw [recorded?, gone] at said
    cases said

theorem content?_draft_of_replace {h : History} {u : Unit} (isName : Path.IsName package)
    (ran : (a.replace package h).runOn t = (.ok u, next)) :
    next.content? (a.historyAt next (package ++ ".tmp")) = none := by
  obtain ⟨_, written, -, -, rename⟩ := replace_steps ran
  have same := (Tree.keeps_rename rename).cwd
  have apart : a.historyAt written (package ++ ".tmp") ≠ a.historyAt written package := by
    refine historyAt_ne fun same => ?_
    have long := congrArg String.length same
    have suffix : ".tmp".length = 4 := rfl
    rw [String.length_append] at long
    omega
  have gone := Tree.content?_source_of_rename rename
  rw [lead_draft isName, lead_history isName] at gone
  rw [historyAt_of_cwd same]
  exact gone apart

/-- A package that has another one for its draft loses its history when that one is recorded. -/
theorem get?_draft_of_record {r : Receipt} {h : History} (draft : other = r.package ++ ".tmp")
    (ran : (a.record r).runOn t = (.ok h, next)) : a.get? next other = none := by
  subst draft
  obtain ⟨valid, _, _, _, -, -, -, -, replace⟩ := record_steps ran
  exact get?_of_none (canNameFile_draft valid)
    (content?_draft_of_replace (isName_of_canNameFile valid) replace)

/-- The history of `app.tmp` is lost when an install of `app` is recorded. -/
theorem get?_draft_of_record_lost :
    let a : Archive := ⟨⟨"/v"⟩, ⟨"/b"⟩⟩
    let t := (((Tree.empty []).put ["v"] .dir).put ["v", "app.tmp"]
      (.file (Text.Utf8.encode (History.fresh "1").text))).put ["new"] (.file [1, 2, 3])
    let r : Receipt := ⟨"app", "2", none, none, true, ⟨"/new"⟩⟩
    let answer := ((a.record r).runOn t).1
    let next := ((a.record r).runOn t).2
    canNameFile "app" = true ∧ canNameFile "app.tmp" = true ∧ answer.toOption.isSome ∧
      a.get? t "app.tmp" = some (.fresh "1") ∧ a.get? next "app.tmp" = none ∧
      ¬ a.get? next "app.tmp" = a.get? t "app.tmp" := by
  intro a t r answer next
  have granted : answer.toOption.isSome := by decide +kernel
  have before : a.get? t "app.tmp" = some (.fresh "1") := by decide +kernel
  have after : a.get? next "app.tmp" = none := by
    obtain ⟨h, made⟩ := Option.isSome_iff_exists.mp granted
    have ran : (a.record r).runOn t = (.ok h, next) := Prod.ext (eq_ok_of_toOption made) rfl
    exact get?_draft_of_record rfl ran
  refine ⟨by decide +kernel, by decide +kernel, granted, before, after, ?_⟩
  rw [before, after]
  nofun

end OtaAgent.Archive
