import OtaAgent.Proofs.Archive.Confinement
import OtaAgent.Proofs.Bench.Preparing
import OtaAgent.Proofs.Files.Entering

set_option autoImplicit false

namespace OtaAgent

open Files

namespace Bench

variable {b : Bench} {u : Update} {t next : Tree} {package : String} {places ways : Location → Prop}

theorem maintains_alters_clear {dir : Path} (inside : ∀ loc, dir.lead t.cwd <+: loc → places loc) :
    Job.Maintains (t.Alters · places ways) (clear dir) := by
  refine maintains_clear fun next altered => ?_
  have further : next.Alters (next.removeAll dir).2 _ ways := Tree.alters_removeAll dir next
  rw [altered.cwd] at further
  exact altered.trans (further.imp inside fun _ => id)

/-- What staging may alter, and where it may make directories. -/
theorem alters_prepare (b : Bench) (u : Update) (t : Tree)
    (shelf : ∀ loc, (b.shelf u.name).lead t.cwd <+: loc → places loc)
    (staged : places ((b.shelfPath u).lead t.cwd))
    (onWay : ∀ loc, (b.shelfPath u).Enters t.cwd loc → ways loc) :
    t.Alters ((b.prepare u).runOn t).2 places ways := by
  suffices maintains : Job.Maintains (t.Alters · places ways) (b.prepare u) from
    maintains t (.refl t places ways)
  refine maintains_prepare fun _ _ => maintains_shelve (maintains_alters_clear shelf)
    (fun dir x up altered => ?_) fun x next made altered => ?_
  · have further : x.Alters (x.makeDirs dir).2 places (dir.Enters x.cwd) :=
      Tree.alters_makeDirs dir x
    rw [altered.cwd] at further
    exact altered.trans (further.imp (fun _ => id) fun loc enters =>
      onWay loc ((Path.above_of_parent? up).enters enters))
  · have further : x.Alters next _ ways := Tree.alters_copy made
    rw [altered.cwd] at further
    exact altered.trans (further.imp (fun loc there => there ▸ staged) fun _ => id)

section Names

/-- The names that lead from the cache to the staged file. -/
def tail (u : Update) : List String :=
  (Path.mk u.name).names ++ (Path.mk u.version).names ++
    (Path.mk (u.file.fileName?.getD (u.name ++ "-" ++ u.version))).names

/-- What is joined to the cache for the update never leads out of it. -/
def staysInside (u : Update) : Bool :=
  !(Path.mk u.name).isAbsolute && !(Path.mk u.version).isAbsolute && Path.descends 0 (tail u)

theorem relative_shelfName (relative : (Path.mk u.name).isAbsolute = false) :
    (Path.mk (u.file.fileName?.getD (u.name ++ "-" ++ u.version))).isAbsolute = false := by
  cases named : u.file.fileName? with
  | some name => exact (Path.isName_of_fileName? named).not_isAbsolute
  | none =>
    rw [Option.getD_none]
    unfold Path.isAbsolute at relative ⊢
    dsimp only at relative ⊢
    rw [String.append_assoc, String.toList_append]
    cases shape : u.name.toList with
    | nil => simp
    | cons c cs => simpa [shape] using relative

variable (relative : (Path.mk u.name).isAbsolute = false)
  (relative' : (Path.mk u.version).isAbsolute = false)

include relative relative'

theorem names_shelfPath : (b.shelfPath u).names = b.cacheDir.names ++ tail u := by
  rw [shelfPath, Path.names_join_of_relative _ (relative_shelfName relative),
    Path.names_join_of_relative _ relative', shelf, Path.names_join_of_relative _ relative, tail]
  simp only [List.append_assoc]

theorem isAbsolute_shelfPath : (b.shelfPath u).isAbsolute = b.cacheDir.isAbsolute := by
  rw [shelfPath, Path.isAbsolute_join_of_relative _ (relative_shelfName relative),
    Path.isAbsolute_join_of_relative _ relative', shelf,
    Path.isAbsolute_join_of_relative _ relative]

end Names

section Confinement

variable {cwd loc : Location}

/-- A shelf lies in the cache if the name of its package does not lead out of there. -/
theorem inside_shelf (stays : Archive.staysBelow package = true) :
    b.cacheDir.lead cwd <+: (b.shelf package).lead cwd := by
  simp only [Archive.staysBelow, Bool.and_eq_true, Bool.not_eq_true'] at stays
  rw [shelf, Path.lead_join_of_relative _ _ stays.1]
  exact Path.prefix_follow _ stays.2 List.prefix_rfl

theorem inside_shelf_of_staysInside (stays : staysInside u = true) :
    b.cacheDir.lead cwd <+: (b.shelf u.name).lead cwd := by
  simp only [staysInside, Bool.and_eq_true, Bool.not_eq_true'] at stays
  rw [shelf, Path.lead_join_of_relative _ _ stays.1.1]
  refine Path.prefix_follow _ stays.2 ?_
  rw [tail, List.append_assoc]
  exact List.prefix_append _ _

theorem inside_shelfPath (stays : staysInside u = true) :
    b.cacheDir.lead cwd <+: (b.shelfPath u).lead cwd := by
  simp only [staysInside, Bool.and_eq_true, Bool.not_eq_true'] at stays
  have lead : (b.shelfPath u).lead cwd = Path.follow (b.cacheDir.lead cwd) (tail u) := by
    rw [Path.lead, Path.lead, names_shelfPath stays.1.1 stays.1.2,
      isAbsolute_shelfPath stays.1.1 stays.1.2, Path.follow_append]
  rw [lead]
  exact Path.prefix_follow _ stays.2 List.prefix_rfl

/-- The way to the staged file is that to the cache, and then goes on inside. -/
theorem enters_shelfPath (stays : staysInside u = true) (enters : (b.shelfPath u).Enters cwd loc) :
    b.cacheDir.lead cwd <+: loc ∨ b.cacheDir.Enters cwd loc := by
  simp only [staysInside, Bool.and_eq_true, Bool.not_eq_true'] at stays
  rw [Path.Enters, names_shelfPath stays.1.1 stays.1.2, isAbsolute_shelfPath stays.1.1 stays.1.2,
    Path.entered_append] at enters
  rcases enters with before | entered
  · exact .inr (by rwa [Path.Enters])
  · obtain ⟨front, passed, rfl⟩ := entered.passed
    exact .inl (Path.prefix_follow _ stays.2 passed)

/-- Names that say one step each lead nowhere else. -/
theorem staysInside_of_isName (isName : Path.IsName u.name) (isVersion : Path.IsName u.version) :
    staysInside u = true := by
  have isFile := isName_shelfName isName isVersion
  have tails : tail u = [u.name, u.version] ++
      [u.file.fileName?.getD (u.name ++ "-" ++ u.version)] := by
    rw [tail, isName.names, isVersion.names, isFile.names]
    rfl
  rw [staysInside, isName.not_isAbsolute, isVersion.not_isAbsolute, tails]
  have one : Path.descends 0 ([] ++ [u.name]) = true := Path.descends_concat isName rfl
  have two : Path.descends 0 [u.name, u.version] = true := Path.descends_concat isVersion one
  simpa using Path.descends_concat isFile two

/-- Nothing is altered but in the cache, save that directories may be made that lead there. -/
structure Confined (b : Bench) (t next : Tree) : Prop where
  alters : t.Alters next (b.cacheDir.lead t.cwd <+: ·) (b.cacheDir.Enters t.cwd)
  outside : t.isDir b.cacheDir = true →
    ∀ loc, ¬ b.cacheDir.lead t.cwd <+: loc → next.node? loc = t.node? loc

/-- Where the cache is there, so are the directories that lead to it. -/
theorem confined_of_alters
    (alters : t.Alters next (b.cacheDir.lead t.cwd <+: ·) (b.cacheDir.Enters t.cwd)) :
    b.Confined t next where
  alters := alters
  outside isDir loc outside := by
    refine (alters.node loc outside).resolve_right fun made => ?_
    rw [Tree.node?_of_isDir isDir made.1] at made
    cases made.2.1

/-- Preparing an install alters only the shelf of the package and the staged file, and makes
directories only on the way to it; what is done after an install alters only the shelf. All of that
lies in the cache if the names do not lead out of it. -/
theorem hooks_confined (b : Bench) (o : Outside) (u : Update) (package : String)
    (site : Site Memory) :
    let t := site.files
    let prepared := ((b.agent o).prepareInstall u site).2.files
    let posted := ((b.agent o).postInstall package site).2.files
    t.Alters prepared
      (fun loc => (b.shelf u.name).lead t.cwd <+: loc ∨ loc = (b.shelfPath u).lead t.cwd)
      ((b.shelfPath u).Enters t.cwd) ∧
    t.Alters posted ((b.shelf package).lead t.cwd <+: ·) (fun _ => False) ∧
    (staysInside u = true → b.Confined t prepared) ∧
    (Archive.staysBelow package = true → b.Confined t posted) := by
  intro t prepared posted
  refine ⟨alters_prepare b u t (fun _ => .inl) (.inr rfl) fun _ => id,
    maintains_alters_clear (fun _ => id) t (.refl t _ _), fun stays => ?_, fun stays => ?_⟩
  · have shelf : b.cacheDir.lead t.cwd <+: (b.shelf u.name).lead t.cwd :=
      inside_shelf_of_staysInside stays
    have altered := alters_prepare b u t (fun loc inside => shelf.trans inside)
      (inside_shelfPath stays) fun loc => enters_shelfPath stays
    exact confined_of_alters ⟨altered.cwd, fun loc outside =>
      (altered.node loc outside).imp_right (.imp_left fun way => way.resolve_left outside)⟩
  · have shelf : b.cacheDir.lead t.cwd <+: (b.shelf package).lead t.cwd := inside_shelf stays
    exact confined_of_alters
      (maintains_alters_clear (fun loc inside => shelf.trans inside) t (.refl t _ _))

/-- On a device without a cache, the cache is made and a package staged in it. -/
theorem hooks_confined_first :
    let b : Bench := ⟨.success, none, .consent, ⟨"/cache"⟩, .onDevice⟩
    let u : Update := .ofFile ⟨"app", "1.0"⟩ ⟨"/in/f"⟩
    let site : Site Memory := ⟨.fresh, ⟨[(["in"], .dir), (["in", "f"], .file [1])], [], false⟩⟩
    let prepared := ((b.agent .nothing).prepareInstall u site).2.files
    prepared.node? ["cache", "app", "1.0", "f"] = some (.file [1]) ∧
      b.Confined site.files prepared ∧
      b.Confined site.files ((b.agent .nothing).postInstall "app" site).2.files := by
  intro b u site prepared
  have stays : staysInside u = true :=
    staysInside_of_isName (by constructor <;> decide) (by constructor <;> decide)
  obtain ⟨-, -, first, last⟩ := hooks_confined b .nothing u "app" site
  exact ⟨by decide +kernel, first stays, last (by decide +kernel)⟩

/-- A package name that begins with `..` has a directory beside the cache taken away, before an
install and after it, though the cache is there. -/
theorem hooks_leaveCache :
    let b : Bench := ⟨.success, none, .consent, ⟨"/cache"⟩, .onDevice⟩
    let u : Update := .ofFile ⟨"../other", "1.0"⟩ ⟨"/in/f"⟩
    let loc := ["other", "kept"]
    let t : Tree := ⟨[(["in"], .dir), (["in", "f"], .file [1]), (["cache"], .dir),
      (["other"], .dir), (loc, .file [2])], [], false⟩
    let site : Site Memory := ⟨.fresh, t⟩
    ¬ b.cacheDir.lead t.cwd <+: loc ∧ t.node? loc = some (.file [2]) ∧
      ((b.agent .nothing).prepareInstall u site).2.files.node? loc = none ∧
      ((b.agent .nothing).postInstall u.name site).2.files.node? loc = none := by
  decide +kernel

end Confinement

end Bench
end OtaAgent
