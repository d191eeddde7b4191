import OtaAgent.Proofs.Bench.Preparing
import OtaAgent.Proofs.Files.Clearing

set_option autoImplicit false

namespace OtaAgent

open Files

namespace Bench

variable {b : Bench} {o : Outside} {u : Update} {t x next : Tree} {cwd : Location} {p : Path}
  {content : Bytes} {site later : Site Memory}

section Kept

/-- The path of the package file leads past the shelf of the package, and not to the staged file. -/
structure LeadsPast (b : Bench) (u : Update) (cwd : Location) : Prop where
  shelf : ∀ loc, u.file.Passes cwd loc → ¬ (b.shelf u.name).lead cwd <+: loc
  staged : u.file.lead cwd ≠ (b.shelfPath u).lead cwd

/-- A path that consists of names leads past the shelf if it does not lead there. -/
theorem leadsPast_of_names (each : ∀ n ∈ u.file.names, Path.IsName n) (isName : Path.IsName u.name)
    (isVersion : Path.IsName u.version) (apart : ¬ (b.shelf u.name).lead cwd <+: u.file.lead cwd) :
    b.LeadsPast u cwd where
  shelf loc passed inside := by
    obtain ⟨front, before, rfl⟩ := passed
    rw [Path.follow_names _ fun n among => each n (before.subset among)] at inside
    refine apart (inside.trans ?_)
    rw [Path.lead, Path.follow_names _ each]
    exact (List.prefix_append_right_inj _).mpr before
  staged same := by
    rw [same] at apart
    exact apart (lead_shelf_isPrefix isName isVersion cwd)

structure Holds (u : Update) (cwd : Location) (content : Bytes) (t : Tree) : Prop where
  here : t.cwd = cwd
  read : t.read u.file = .ok content

theorem maintains_holds_clear (past : b.LeadsPast u cwd) :
    Job.Maintains (Holds u cwd content) (clear (b.shelf u.name)) := by
  refine maintains_clear fun t held => ?_
  obtain ⟨rfl, found⟩ := held
  obtain ⟨gone, removed, inside⟩ := t.exists_without_of_removeAll (b.shelf u.name)
  rw [removed]
  exact ⟨rfl, Tree.read_without found fun loc passed =>
    Bool.eq_false_iff.mpr fun hit => past.shelf loc passed (inside loc hit)⟩

theorem Holds.makeDirs (held : Holds u cwd content t) (dir : Path) :
    Holds u cwd content (t.makeDirs dir).2 := by
  obtain ⟨rfl, found⟩ := held
  have keeps := Tree.keepsAll_makeDirs dir t fun _ => False
  exact ⟨keeps.cwd, Tree.read_of_keepsDirs keeps.toKeepsDirs found
    ((keeps.content _ id).trans (Tree.placed_of_read found).2)⟩

theorem Holds.copy (held : Holds u cwd content t) (past : b.LeadsPast u cwd)
    (made : t.copy u.file (b.shelfPath u) = .ok next) : Holds u cwd content next := by
  obtain ⟨rfl, found⟩ := held
  have alters : t.Alters next _ fun _ => False := Tree.alters_copy made
  exact ⟨alters.cwd, Tree.read_of_keepsDirs (Tree.keepsDirs_copy made) found
    ((alters.keeps.content _ past.staged).trans (Tree.placed_of_read found).2)⟩

/-- A package file whose path leads past the shelf stays readable, whatever comes of staging it. -/
theorem maintains_holds_prepare
    (past : b.mode ≠ .prepareFailure → (b.shelfPath u).same u.file = false → b.LeadsPast u cwd) :
    Job.Maintains (Holds u cwd content) (b.prepare u) :=
  maintains_prepare fun willing other =>
    maintains_shelve (maintains_holds_clear (past willing other))
      (fun dir _ _ held => held.makeDirs dir)
      fun _ _ made held => held.copy (past willing other) made

/-- What is staged holds the same as the package file. -/
theorem read_of_shelve (past : b.LeadsPast u t.cwd) (found : t.read u.file = .ok content)
    (ran : (b.shelve u).runOn t = (.ok (), next)) :
    next.read (b.shelfPath u) = .ok content := by
  have cleared := maintains_holds_clear past t ⟨rfl, found⟩
  rcases shelve_cases cleared fun dir x _ held => held.makeDirs dir with
    ⟨e, last, failed, -⟩ | ⟨x, last, done, held, made⟩
  · cases failed.symm.trans ran
  · cases done.symm.trans ran
    exact Tree.read_of_copy (by rw [held.here]; exact past.staged) held.read made

end Kept

section Lost

/-- The package file lies on the shelf of the package, and what is to be staged elsewhere there. -/
structure OnShelf (b : Bench) (u : Update) (t : Tree) : Prop where
  willing : b.mode ≠ .prepareFailure
  other : (b.shelfPath u).same u.file = false
  isName : Path.IsName u.name
  isVersion : Path.IsName u.version
  found : t.isDir (b.shelf u.name) = true
  inside : (b.shelf u.name).lead t.cwd <+: u.file.lead t.cwd

structure NoFile (b : Bench) (u : Update) (cwd : Location) (t : Tree) : Prop where
  here : t.cwd = cwd
  none : ∀ loc, (b.shelf u.name).lead cwd <+: loc → t.content? loc = none

theorem NoFile.read_ne (lost : b.NoFile u cwd t)
    (inside : (b.shelf u.name).lead cwd <+: p.lead cwd) : t.read p ≠ .ok content := by
  intro found
  have there := (Tree.placed_of_read found).2
  rw [lost.here, lost.none _ inside] at there
  cases there

theorem NoFile.makeDirs (lost : b.NoFile u cwd t) (dir : Path) :
    b.NoFile u cwd (t.makeDirs dir).2 := by
  have keeps := Tree.keepsAll_makeDirs dir t fun _ => False
  exact ⟨keeps.cwd.trans lost.here, fun loc inside =>
    (keeps.content loc id).trans (lost.none loc inside)⟩

theorem maintains_noFile_clear : Job.Maintains (b.NoFile u cwd) (clear (b.shelf u.name)) := by
  refine maintains_clear fun t lost => ?_
  obtain ⟨gone, removed, -⟩ := t.exists_without_of_removeAll (b.shelf u.name)
  rw [removed]
  refine ⟨lost.here, fun loc inside => ?_⟩
  rw [Tree.content?_without, lost.none loc inside, ite_self]

/-- No file is left of a shelf that could be found. -/
theorem noFile_of_clear (onShelf : b.OnShelf u t) :
    b.NoFile u t.cwd ((clear (b.shelf u.name)).runOn t).2 := by
  obtain ⟨c, removed, cleared⟩ := Tree.removeAll_of_isDir onShelf.isName onShelf.found
  have bare := cleared.bare onShelf.isName (.inl onShelf.found)
  rw [runOn_clear, shelf, removed]
  exact ⟨cleared.cwd, fun loc inside => bare.content? inside⟩

/-- A package file that is lost when the shelf is cleared cannot be staged. -/
theorem shelve_of_noFile (cleared : b.NoFile u cwd ((clear (b.shelf u.name)).runOn t).2)
    (inside : (b.shelf u.name).lead cwd <+: u.file.lead cwd) :
    ∃ e last, (b.shelve u).runOn t = (.error e, last) ∧ b.NoFile u cwd last := by
  refine (shelve_cases cleared fun dir x _ lost => lost.makeDirs dir).resolve_right ?_
  rintro ⟨x, next, -, lost, made⟩
  obtain ⟨content, found⟩ := Tree.exists_read_of_copy made
  exact lost.read_ne inside found

variable (onShelf : b.OnShelf u t)

include onShelf

theorem OnShelf.prepare (cleared : b.NoFile u t.cwd ((clear (b.shelf u.name)).runOn x).2) :
    ∃ e last, (b.prepare u).runOn x = (.error e, last) ∧ b.NoFile u t.cwd last := by
  obtain ⟨e, last, ran, lost⟩ := shelve_of_noFile cleared onShelf.inside
  rw [runOn_prepare_of_other onShelf.willing onShelf.other, ran]
  exact ⟨e, last, rfl, lost⟩

/-- Once the package file is lost, it stays so. -/
theorem OnShelf.maintains_noFile : Job.Maintains (b.NoFile u t.cwd) (b.prepare u) := by
  intro x lost
  obtain ⟨e, last, ran, still⟩ := onShelf.prepare (maintains_noFile_clear x lost)
  rw [ran]
  exact still

end Lost

/-- What is staged of a package file that is readable: the file stays readable, and what is staged
holds the same, if its path leads past the shelf. A package file on the shelf is lost unless it is
the staged file: no copy of it is left, and the call is refused, as is any further one. -/
theorem prepare_spares (b : Bench) (o : Outside) (u : Update) (site left : Site Memory)
    (content : Bytes) (answered : Answer Prepared) (found : site.files.read u.file = .ok content)
    (called : (b.agent o).prepareInstall u site = (answered, left)) :
    ((b.mode ≠ .prepareFailure → (b.shelfPath u).same u.file = false →
        b.LeadsPast u site.files.cwd) →
      left.files.read u.file = .ok content ∧
      ((b.shelfPath u).same u.file = false → ∀ newPath, answered = .ok ⟨.ready, newPath⟩ →
        left.files.read (b.shelfPath u) = .ok content)) ∧
    (b.OnShelf u site.files → (∃ e, answered = .error e) ∧
      (∀ p held, p = u.file ∨ p = b.shelfPath u → left.files.read p ≠ .ok held) ∧
      ∀ later, b.Prepares o (· = u) left later →
        ∃ e, ((b.agent o).prepareInstall u later).1 = .error e) := by
  have after : left = ((b.agent o).prepareInstall u site).2 := (congrArg Prod.snd called).symm
  refine ⟨fun past => ⟨?_, fun other newPath ready => ?_⟩, fun onShelf => ?_⟩
  · rw [after]
    exact (maintains_holds_prepare past site.files ⟨rfl, found⟩).read
  · rw [ready] at called
    obtain ⟨willing, -, ran⟩ := shelve_of_ready other called
    exact read_of_shelve (past willing other) found ran
  · have refused (x : Site Memory)
        (cleared : b.NoFile u site.files.cwd ((clear (b.shelf u.name)).runOn x.files).2) :
        (∃ e, ((b.agent o).prepareInstall u x).1 = .error e) ∧
          b.NoFile u site.files.cwd ((b.agent o).prepareInstall u x).2.files := by
      obtain ⟨e, last, ran, lost⟩ := onShelf.prepare cleared
      rw [prepareInstall_eq, ran]
      exact ⟨⟨_, rfl⟩, lost⟩
    obtain ⟨failed, lost⟩ := refused site (noFile_of_clear onShelf)
    rw [called] at failed lost
    refine ⟨failed, fun p held among => ?_, fun later retried => ?_⟩
    · rcases among with rfl | rfl
      · exact lost.read_ne onShelf.inside
      · exact lost.read_ne (lead_shelf_isPrefix onShelf.isName onShelf.isVersion _)
    · have still := retried.maintains (fun v same => same ▸ onShelf.maintains_noFile) lost
      exact (refused later (maintains_noFile_clear later.files still)).1

/-- A package is staged in the place of an older version, and its file stays. -/
theorem prepare_spares_download :
    let b : Bench := ⟨.success, none, .consent, ⟨"/cache"⟩, .onDevice⟩
    let u : Update := .ofFile ⟨"app", "2.0"⟩ ⟨"/in/f"⟩
    let site : Site Memory := ⟨.fresh, ⟨[(["in"], .dir), (["in", "f"], .file [1]),
      (["cache"], .dir), (["cache", "app"], .dir), (["cache", "app", "old"], .file [2])],
      [], false⟩⟩
    ∃ left, (b.agent .nothing).prepareInstall u site = (.ok ⟨.ready, some (b.shelfPath u)⟩, left) ∧
      left.files.read u.file = .ok [1] ∧ left.files.read (b.shelfPath u) = .ok [1] := by
  intro b u site
  have isName : Path.IsName u.name := by constructor <;> decide
  have isVersion : Path.IsName u.version := by constructor <;> decide
  have isIn : Path.IsName "in" := by constructor <;> decide
  have isFile : Path.IsName "f" := by constructor <;> decide
  have each : ∀ n ∈ u.file.names, Path.IsName n := by
    rw [show u.file.names = ["in", "f"] by decide]
    simp [isIn, isFile]
  have past : b.LeadsPast u site.files.cwd :=
    leadsPast_of_names each isName isVersion (by decide +kernel)
  have found : site.files.read u.file = .ok [1] := eq_ok_of_toOption (by decide +kernel)
  have ready : ((b.agent .nothing).prepareInstall u site).1 = .ok ⟨.ready, some (b.shelfPath u)⟩ :=
    eq_ok_of_toOption (by decide +kernel)
  have other : (b.shelfPath u).same u.file = false := by decide +kernel
  cases called : (b.agent .nothing).prepareInstall u site with
  | mk answered left =>
    rw [called] at ready
    obtain ⟨kept, staged⟩ := (prepare_spares b .nothing u site left [1] answered found called).1
      fun _ _ => past
    exact ⟨left, Prod.ext ready rfl, kept, staged other _ ready⟩

/-- A package that is staged is offered as another version, and its file is lost. -/
theorem prepare_loses_staged :
    let b : Bench := ⟨.success, none, .consent, ⟨"/cache"⟩, .onDevice⟩
    let u : Update := .ofFile ⟨"app", "2.0"⟩ ⟨"/cache/app/1.0/f"⟩
    let site : Site Memory := ⟨.fresh, ⟨[(["cache"], .dir), (["cache", "app"], .dir),
      (["cache", "app", "1.0"], .dir), (["cache", "app", "1.0", "f"], .file [1])], [], false⟩⟩
    let called := (b.agent .nothing).prepareInstall u site
    (site.files.read u.file).toOption = some [1] ∧ called.1.toOption = none ∧
      (called.2.files.read u.file).toOption = none ∧
      (called.2.files.read (b.shelfPath u)).toOption = none ∧
      ((b.agent .nothing).prepareInstall u called.2).1.toOption = none := by
  decide +kernel

end Bench
end OtaAgent
