import OtaAgent.Proofs.Archive.Record
import OtaAgent.Proofs.Path.Above

set_option autoImplicit false

namespace OtaAgent

open Files

namespace Archive

variable (a : Archive)

/-- The location is that of an entry in the directory of the histories. -/
def AmongHistories (t : Tree) (loc : Location) : Prop := ∃ name, loc = a.at_ t ++ [name]

def backupsOf (package : String) : Path := a.backupDir.join package

def AmongBackups (t : Tree) (package : String) (loc : Location) : Prop :=
  ∃ name more, loc = (a.backupsOf package).lead t.cwd ++ name :: more

/-- What is joined to a directory as this version stays below it. -/
def staysBelow (version : String) : Bool :=
  !(Path.mk version).isAbsolute && Path.descends 0 (Path.mk version).names

variable {a} {t : Tree} {package : String} {places ways : Location → Prop}

theorem amongHistories_of_belongs {loc : Location} (belongs : a.Belongs t package loc) :
    a.AmongHistories t loc := by
  rcases belongs with rfl | rfl | rfl
  all_goals exact ⟨_, rfl⟩

section Alters

theorem attempts_alters {op : Op} (plain : op.Plain)
    (inside : ∀ loc, op.Touches t.cwd loc → places loc) :
    Job.Attempts (fun _ (job : FileJob _) => Job.Maintains (t.Alters · places ways) job) op := by
  refine fun _ => Job.maintains_alters inside fun loc made => ?_
  cases op with
  | makeDirs p => exact plain.elim
  | _ => exact made.elim

theorem attempts_alters_makeDirs {p : Path} (onWay : ∀ loc, p.Passes t.cwd loc → ways loc) :
    Job.Attempts (fun _ (job : FileJob _) => Job.Maintains (t.Alters · places ways) job)
      (.makeDirs p) := by
  refine fun _ => Job.maintains_alters (fun _ => False.elim) ?_
  rintro _ ⟨q, among, rfl⟩
  exact onWay _ ((Path.above_of_mem_ancestry among).passes t.cwd)

theorem replacing_alters (isName : Path.IsName package)
    (inside : ∀ loc, a.Belongs t package loc → places loc) :
    a.Replacing (fun _ => Job.Maintains (t.Alters · places ways))
      (fun _ => Job.Maintains (t.Alters · places ways)) package :=
  replacing_of_inside isName
    (fun _ plain there => attempts_alters plain fun loc touched =>
      inside loc (.inr (there loc touched)))
    fun there => attempts_alters trivial fun loc touched => inside loc (there loc touched)

theorem backingUp_alters {r : Receipt}
    (inside : places ((a.backupPath r.package r.version r.file).lead t.cwd))
    (onWay : ∀ loc, (a.backupPath r.package r.version r.file).Passes t.cwd loc → ways loc) :
    a.BackingUp (fun _ => Job.Maintains (t.Alters · places ways))
      (fun _ => Job.Maintains (t.Alters · places ways)) r where
  makeDirs dir up := by
    refine attempts_alters_makeDirs ?_
    rintro _ ⟨names, passed, rfl⟩
    have above := Path.above_of_parent? up
    exact onWay _ ⟨names, passed.trans above.names, by rw [above.isAbsolute]⟩
  copy := attempts_alters trivial fun _ there => there ▸ inside

/-- What recording an install may alter, and where it may make directories. -/
theorem alters_record (t : Tree) (r : Receipt)
    (inside : Path.IsName r.package → ∀ loc, a.Belongs t r.package loc ∨
      loc = (a.backupPath r.package r.version r.file).lead t.cwd → places loc)
    (onWay : Path.IsName r.package → ∀ loc, a.versionDir.Passes t.cwd loc ∨
      (a.backupPath r.package r.version r.file).Passes t.cwd loc → ways loc) :
    t.Alters ((a.record r).runOn t).2 places ways := by
  suffices maintains : Job.Maintains (t.Alters · places ways) (a.record r) from
    maintains t (.refl t places ways)
  refine Job.rules_maintains.record (fun valid => ?_) (fun valid => ?_) fun valid => ?_
  all_goals have isName := isName_of_canNameFile valid
  · exact attempts_alters_makeDirs fun loc => onWay isName loc ∘ .inl
  · exact backingUp_alters (inside isName _ (.inr rfl)) fun loc => onWay isName loc ∘ .inr
  · exact replacing_alters isName fun loc => inside isName loc ∘ .inl

end Alters

section Backups

variable {version : String} {file : Path}

/-- The names of a backup go on from the directory of its package by what the version and the file
say. -/
theorem names_backupPath (isName : Path.IsName package)
    (relative : (Path.mk version).isAbsolute = false) :
    (a.backupPath package version file).names = (a.backupsOf package).names ++
      ((Path.mk version).names ++ [file.fileName?.getD package]) := by
  rw [backupPath, Path.names_join _ (isName_backup isName), Path.names_join_of_relative _ relative,
    List.append_assoc]
  rfl

theorem isAbsolute_backupPath (isName : Path.IsName package)
    (relative : (Path.mk version).isAbsolute = false) :
    (a.backupPath package version file).isAbsolute = (a.backupsOf package).isAbsolute := by
  rw [backupPath, Path.isAbsolute_join _ (isName_backup isName),
    Path.isAbsolute_join_of_relative _ relative]
  rfl

/-- On the way to a backup one passes the way to the backups of its package, and then goes on below
them. -/
theorem passes_backupPath {loc : Location} (isName : Path.IsName package)
    (stays : staysBelow version = true)
    (passed : (a.backupPath package version file).Passes t.cwd loc) :
    (a.backupsOf package).Passes t.cwd loc ∨ a.AmongBackups t package loc := by
  simp only [staysBelow, Bool.and_eq_true, Bool.not_eq_true'] at stays
  obtain ⟨relative, descends⟩ := stays
  obtain ⟨names, passed, rfl⟩ := passed
  rw [names_backupPath isName relative] at passed
  rw [isAbsolute_backupPath isName relative]
  rcases List.prefix_or_prefix_of_prefix passed (List.prefix_append _ _) with before | ⟨front, rfl⟩
  · exact .inl ⟨names, before, rfl⟩
  · have backup : Path.IsName (file.fileName?.getD package) := isName_backup isName
    rw [List.prefix_append_right_inj] at passed
    rw [Path.follow_append]
    obtain ⟨more, ahead⟩ := Path.prefix_follow ((a.backupsOf package).lead t.cwd)
      (Path.descends_concat backup descends) passed
    change (a.backupsOf package).Passes t.cwd
      (Path.follow ((a.backupsOf package).lead t.cwd) front) ∨
        a.AmongBackups t package (Path.follow ((a.backupsOf package).lead t.cwd) front)
    rw [← ahead]
    cases more with
    | nil =>
      rw [List.append_nil]
      exact .inl (Path.passes_lead _ _)
    | cons name more => exact .inr ⟨name, more, rfl⟩

/-- A backup lies below the directory of those of its package. -/
theorem amongBackups_backupPath (isName : Path.IsName package) (stays : staysBelow version = true) :
    a.AmongBackups t package ((a.backupPath package version file).lead t.cwd) := by
  simp only [staysBelow, Bool.and_eq_true, Bool.not_eq_true'] at stays
  obtain ⟨relative, descends⟩ := stays
  obtain ⟨more, ahead⟩ := Path.prefix_follow ((a.backupsOf package).lead t.cwd) descends
    List.prefix_rfl
  have lead : (a.backupPath package version file).lead t.cwd =
      (a.backupsOf package).lead t.cwd ++ (more ++ [file.fileName?.getD package]) := by
    rw [backupPath, Path.lead_join _ _ (isName_backup isName),
      Path.lead_join_of_relative _ _ relative, ← List.append_assoc, ahead]
    rfl
  rw [lead]
  cases more with
  | nil => exact ⟨_, _, rfl⟩
  | cons name more => exact ⟨_, _, rfl⟩

end Backups

/-- Recording an install writes nothing but entries among the histories and the backup, and makes
directories on the way to these. If the version stays below the directory that it is joined to, the
backup lies below the directory of the backups of its package, and so does what is made on the way
from there. -/
theorem record_confined (a : Archive) (t : Tree) (r : Receipt) :
    t.Alters ((a.record r).runOn t).2
      (fun loc => a.AmongHistories t loc ∨
        loc = (a.backupPath r.package r.version r.file).lead t.cwd)
      (fun loc => a.versionDir.Passes t.cwd loc ∨
        (a.backupPath r.package r.version r.file).Passes t.cwd loc) ∧
    (staysBelow r.version = true → t.Alters ((a.record r).runOn t).2
      (fun loc => a.AmongHistories t loc ∨ a.AmongBackups t r.package loc)
      (fun loc => a.versionDir.Passes t.cwd loc ∨ (a.backupsOf r.package).Passes t.cwd loc ∨
        a.AmongBackups t r.package loc)) := by
  refine ⟨alters_record t r (fun _ _ => .imp_left amongHistories_of_belongs) fun _ _ => id,
    fun stays => alters_record t r (fun isName loc there => ?_) fun isName loc passed => ?_⟩
  · obtain belongs | here := there
    · exact .inl (amongHistories_of_belongs belongs)
    · exact .inr (here ▸ amongBackups_backupPath isName stays)
  · exact passed.imp_right (passes_backupPath isName stays)

/-- An install is recorded on an empty device: both directories and that of the version are made. -/
theorem record_confined_first :
    let a : Archive := ⟨⟨"/versions"⟩, ⟨"/backups"⟩⟩
    let r : Receipt := ⟨"app", "1.0", none, none, true, ⟨"/in/f"⟩⟩
    let t : Tree := ⟨[(["in"], .dir), (["in", "f"], .file [1])], [], false⟩
    ((a.record r).runOn t).2.node? ["backups", "app", "1.0", "f"] = some (.file [1]) ∧
      t.Alters ((a.record r).runOn t).2
        (fun loc => a.AmongHistories t loc ∨ a.AmongBackups t "app" loc)
        (fun loc => a.versionDir.Passes t.cwd loc ∨ (a.backupsOf "app").Passes t.cwd loc ∨
          a.AmongBackups t "app" loc) :=
  ⟨by decide +kernel, (record_confined _ _ _).2 (by decide +kernel)⟩

/-- A version that begins with `..` has its file written over a backup of another package, though
all directories are there. -/
theorem record_overwrites_other :
    let a : Archive := ⟨⟨"/versions"⟩, ⟨"/backups"⟩⟩
    let r : Receipt := ⟨"app", "../other/1.0", none, none, true, ⟨"/in/f"⟩⟩
    let loc := ["backups", "other", "1.0", "f"]
    let t : Tree := ⟨[(["in"], .dir), (["in", "f"], .file [1]), (["versions"], .dir),
      (["backups"], .dir), (["backups", "app"], .dir), (["backups", "other"], .dir),
      (["backups", "other", "1.0"], .dir), (loc, .file [2])], [], false⟩
    canNameFile r.package = true ∧ ¬ a.AmongHistories t loc ∧ ¬ a.AmongBackups t r.package loc ∧
      ((a.record r).runOn t).2.node? loc ≠ t.node? loc := by
  intro a r loc t
  refine ⟨by decide +kernel, ?_, ?_, by decide +kernel⟩
  · rintro ⟨name, there⟩
    rw [show a.at_ t = ["versions"] by decide +kernel] at there
    simp [loc] at there
  · rintro ⟨name, more, there⟩
    rw [show (a.backupsOf r.package).lead t.cwd = ["backups", "app"] by decide +kernel] at there
    simp [loc] at there

end Archive
end OtaAgent
