import OtaAgent.Proofs.Bench.Preparing
import OtaAgent.Proofs.Files.Renewing

set_option autoImplicit false

namespace OtaAgent

open Files

namespace Bench

variable {b : Bench} {o : Outside} {u : Update} {t c s m x next : Tree} {package : String}
  {content : Bytes}

section Steps

variable (isName : Path.IsName u.name) (isVersion : Path.IsName u.version)

include isName isVersion

/-- The steps in which a file is staged. -/
theorem shelve_iff : (b.shelve u).runOn t = (.ok (), next) ↔ ∃ c m,
    (clear (b.shelf u.name)).runOn t = (.ok (), c) ∧
    c.makeDirs ((b.shelf u.name).join u.version) = (.ok (), m) ∧
    m.copy u.file (b.shelfPath u) = .ok next := by
  rw [shelve_eq isName isVersion, stow]
  constructor
  · intro ran
    obtain ⟨_, c, cleared, ran⟩ := Job.runOn_bind_ok ran
    obtain ⟨_, m, make, ran⟩ := Job.runOn_bind_ok ran
    obtain ⟨_, _, copy, ran⟩ := Job.runOn_bind_ok ran
    cases ran
    exact ⟨c, m, cleared, (Job.runOn_makeDirs_iff.mp make).2,
      Job.settle_ok (Job.runOn_attempt_ok copy)⟩
  · rintro ⟨c, m, cleared, make, copy⟩
    rw [Job.runOn_bind, cleared]
    dsimp only
    rw [Job.runOn_bind, Job.runOn_makeDirs_iff.mpr ⟨rfl, make⟩]
    dsimp only
    rw [Job.runOn_bind, Job.runOn_attempt, Op.apply, copy]
    rfl

end Steps

/-- A shelf that could be cleared, and can be made again, is there to be used over and over. -/
theorem renewed_of_clear (sound : t.Sound) (isName : Path.IsName package)
    (reachable : t.present (b.shelf package) = true ∨ t.Empty ((b.shelf package).lead t.cwd))
    (ran : (clear (b.shelf package)).runOn t = (.ok (), c))
    (made : c.makeDirs (b.shelf package) = (.ok (), s)) :
    Tree.Renewed (b.shelf package) c s ∧ c.cwd = t.cwd ∧
      ∀ loc, ¬ (b.shelf package).lead t.cwd <+: loc → c.node? loc = t.node? loc := by
  rw [runOn_clear] at ran
  cases isDir : t.isDir (b.shelf package) with
  | true =>
    obtain ⟨_, removed, cleared⟩ := Tree.removeAll_of_isDir isName isDir
    rw [shelf, removed] at ran
    cases ran
    exact ⟨cleared.renewed isName sound isDir made, cleared.cwd, fun loc => cleared.node?⟩
  | false =>
    obtain ⟨e, refused, removed⟩ := Tree.removeAll_of_not_isDir isDir
    rw [removed] at ran
    cases e with
    | notFound =>
      cases ran
      have absent := Tree.not_present_of_missing refused
      exact ⟨Tree.renewed_of_free sound made (reachable.resolve_left (by simp [absent])), rfl,
        fun _ _ => rfl⟩
    | _ => cases ran

/-- What is staged of the package leaves all but its shelf as it is. -/
theorem maintains_steady (renewed : Tree.Renewed (b.shelf package) c s)
    (isName : Path.IsName package) (same : u.name = package) (isVersion : Path.IsName u.version) :
    Job.Maintains (Tree.Steady (b.shelf package) c s) (b.prepare u) := by
  subst same
  refine maintains_prepare fun _ _ => maintains_shelve (maintains_clear fun t steady => ?_)
    (fun dir x up steady => ?_) fun x next made steady => ?_
  · obtain ⟨c', removed | removed, still, -⟩ := steady.removeAll isName renewed
    · rwa [shelf, removed]
    · rwa [shelf, removed]
  · have parent : (b.shelfPath u).parent? = some ((b.shelf u.name).join u.version) :=
      Path.parent?_join _ isVersion (isName_shelfName isName isVersion)
    obtain rfl : (b.shelf u.name).join u.version = dir := Option.some.inj (parent.symm.trans up)
    exact steady.makeDirs isName isVersion renewed
  · exact steady.copy isName isVersion (isName_shelfName isName isVersion) made

/-- The file that was staged on the shelf can be staged there again, with the same outcome. -/
theorem shelve_again (renewed : Tree.Renewed (b.shelf u.name) c s) (isName : Path.IsName u.name)
    (isVersion : Path.IsName u.version)
    (apart : ¬ (b.shelf u.name).lead c.cwd <+: u.file.lead c.cwd)
    (made : c.makeDirs ((b.shelf u.name).join u.version) = (.ok (), m))
    (copied : m.copy u.file (b.shelfPath u) = .ok next)
    (steady : Tree.Steady (b.shelf u.name) c s x) :
    ∃ last, (b.shelve u).runOn x = (.ok (), last) ∧ next.Same last := by
  obtain ⟨c', removed, still, bare⟩ := steady.removeAll isName renewed
  have cleared : (clear (b.shelf u.name)).runOn x = (.ok (), c') := by
    rw [runOn_clear, shelf]
    rcases removed with removed | removed <;> rw [removed]
  obtain ⟨m', made'⟩ := Tree.makeDirs_of_keeps made (still.keepsAll renewed bare)
  have same := Tree.Steady.same isName isVersion renewed made still bare made'
  have keeps := Tree.keepsAll_of_makeDirs made fun _ => False
  have apart' : u.file.lead m.cwd ≠ (b.shelfPath u).lead m.cwd := by
    rw [keeps.cwd]
    intro there
    rw [there] at apart
    exact apart (lead_shelf_isPrefix isName isVersion c.cwd)
  obtain ⟨last, copied', done⟩ :=
    same.copy (renewed.sound.of_keepsDirs keeps.toKeepsDirs) apart' copied
  exact ⟨last, (shelve_iff isName isVersion).mpr ⟨c', m', cleared, made', copied'⟩, done⟩

/-- Where a package file that does not lie on the shelf is staged, the staged file holds the same
and is the only one on the shelf, if what lay there could be found or nothing did. The same call
gives the same answer after any further calls for the package, whatever their versions and whatever
came of them, and leaves the same files. -/
theorem prepare_settles (b : Bench) (o : Outside) (u : Update) (site left : Site Memory)
    (content : Bytes) (newPath : Option Path) (sound : site.files.Sound)
    (isName : Path.IsName u.name) (isVersion : Path.IsName u.version)
    (found : site.files.read u.file = .ok content)
    (away : ¬ (b.shelf u.name).lead site.files.cwd <+: u.file.lead site.files.cwd)
    (reachable : site.files.present (b.shelf u.name) = true ∨
      site.files.Empty ((b.shelf u.name).lead site.files.cwd))
    (called : (b.agent o).prepareInstall u site = (.ok ⟨.ready, newPath⟩, left)) :
    newPath = some (b.shelfPath u) ∧ left.files.read (b.shelfPath u) = .ok content ∧
    (∀ loc, (b.shelf u.name).lead site.files.cwd <+: loc → (left.files.content? loc).isSome →
      loc = (b.shelfPath u).lead site.files.cwd) ∧
    ∀ later, b.Prepares o (fun v => v.name = u.name ∧ Path.IsName v.version) left later →
      ∃ last, (b.agent o).prepareInstall u later = (.ok ⟨.ready, newPath⟩, last) ∧
        left.files.Same last.files := by
  have apart : u.file.lead site.files.cwd ≠ (b.shelfPath u).lead site.files.cwd := by
    intro there
    rw [there] at away
    exact away (lead_shelf_isPrefix isName isVersion _)
  have other : (b.shelfPath u).same u.file = false :=
    Bool.eq_false_iff.mpr fun same => apart (Path.lead_eq_of_same same _).symm
  obtain ⟨willing, path, ran⟩ := shelve_of_ready other called
  obtain ⟨c, m, cleared, made, copied⟩ := (shelve_iff isName isVersion).mp ran
  obtain ⟨s, above⟩ := Tree.exists_makeDirs_of_join isName isVersion made
  obtain ⟨renewed, cwd, same⟩ := renewed_of_clear sound isName reachable cleared above
  have keeps := Tree.keepsAll_of_makeDirs made fun _ => False
  have here : m.cwd = site.files.cwd := keeps.cwd.trans cwd
  refine ⟨path, ?_, fun loc inside there => ?_, fun later prepares => ?_⟩
  · obtain ⟨held, source⟩ := Tree.exists_read_of_copy copied
    have before := (Tree.placed_of_read found).2
    have after := (Tree.placed_of_read source).2
    rw [here, keeps.content _ id, Tree.content?, same _ away] at after
    obtain rfl : content = held := Option.some.inj (before.symm.trans after)
    exact Tree.read_of_copy (by rwa [here]) source copied
  · refine Decidable.byContradiction fun elsewhere => ?_
    have alters : m.Alters left.files _ fun _ => False := Tree.alters_copy copied
    rw [← cwd] at inside
    rw [alters.keeps.content loc (by rwa [here]), keeps.content loc id,
      renewed.bare.content? inside] at there
    cases there
  · have begun := (renewed.steady_of_makeDirs isName isVersion made).copy isName isVersion
      (isName_shelfName isName isVersion) copied
    have steady := prepares.maintains
      (fun v among => maintains_steady renewed isName among.1 among.2) begun
    obtain ⟨last, again, alike⟩ :=
      shelve_again renewed isName isVersion (by rwa [cwd]) made copied steady
    refine ⟨{ later with files := last }, ?_, alike⟩
    rw [prepareInstall_eq, runOn_prepare_of_other willing other, again, path]
    rfl

/-- A package is staged in the place of an older version, and again after a newer one was. -/
theorem prepare_settles_versions :
    let b : Bench := ⟨.success, none, .consent, ⟨"/cache"⟩, .onDevice⟩
    let u : Update := .ofFile ⟨"app", "2.0"⟩ ⟨"/in/f"⟩
    let v : Update := .ofFile ⟨"app", "3.0"⟩ ⟨"/in/f"⟩
    let site : Site Memory := ⟨.fresh, ⟨[(["in"], .dir), (["in", "f"], .file [1]),
      (["cache"], .dir), (["cache", "app"], .dir), (["cache", "app", "old"], .file [2])],
      [], false⟩⟩
    ∃ left last, (b.agent .nothing).prepareInstall u site =
        (.ok ⟨.ready, some (b.shelfPath u)⟩, left) ∧
      left.files.read (b.shelfPath u) = .ok [1] ∧
      (b.agent .nothing).prepareInstall u ((b.agent .nothing).prepareInstall v left).2 =
        (.ok ⟨.ready, some (b.shelfPath u)⟩, last) ∧ left.files.Same last.files := by
  intro b u v site
  have isName : Path.IsName u.name := by constructor <;> decide
  have isVersion : Path.IsName u.version := by constructor <;> decide
  have isVersion' : Path.IsName v.version := by constructor <;> decide
  have found : site.files.read u.file = .ok [1] := eq_ok_of_toOption (by decide +kernel)
  have ready : ((b.agent .nothing).prepareInstall u site).1 = .ok ⟨.ready, some (b.shelfPath u)⟩ :=
    eq_ok_of_toOption (by decide +kernel)
  cases called : (b.agent .nothing).prepareInstall u site with
  | mk answered left =>
    rw [called] at ready
    obtain rfl : answered = .ok ⟨.ready, some (b.shelfPath u)⟩ := ready
    obtain ⟨-, held, -, again⟩ := prepare_settles b .nothing u site left [1] _
      (.inr (by decide +kernel)) isName isVersion found (by decide +kernel)
      (.inl (by decide +kernel)) called
    have between : b.Prepares .nothing (fun w => w.name = u.name ∧ Path.IsName w.version) left
        ((b.agent .nothing).prepareInstall v left).2 :=
      .more (u := v) (.none left) ⟨rfl, isVersion'⟩
    obtain ⟨last, answered, same⟩ := again _ between
    exact ⟨left, last, rfl, held, answered, same⟩

/-- Where the path of the cache steps back out of a directory that is missing, what lies on the
shelf is not found there and not taken away, and the same call leaves other files once that
directory has been made. -/
theorem prepare_unsettled :
    let b : Bench := ⟨.success, none, .consent, ⟨"/a/../cache"⟩, .onDevice⟩
    let u : Update := .ofFile ⟨"app", "2.0"⟩ ⟨"/in/f"⟩
    let site : Site Memory := ⟨.fresh, ⟨[(["in"], .dir), (["in", "f"], .file [1]),
      (["cache"], .dir), (["cache", "app"], .dir), (["cache", "app", "old"], .file [2])],
      [], false⟩⟩
    let (answered, left) := (b.agent .nothing).prepareInstall u site
    let (again, last) := (b.agent .nothing).prepareInstall u left
    answered.toOption = some ⟨.ready, some (b.shelfPath u)⟩ ∧ again = answered ∧
      left.files.node? ["cache", "app", "old"] = some (.file [2]) ∧
      last.files.node? ["cache", "app", "old"] = none := by
  decide +kernel

end Bench
end OtaAgent
