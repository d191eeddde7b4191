import Mathlib.Data.List.Infix
import OtaAgent.Proofs.Archive.Record
import OtaAgent.Proofs.Correspondence
import OtaAgent.Proofs.Files.Relabelled

set_option autoImplicit false

namespace OtaAgent

open Files

/-- A text that can be the name of a directory. -/
structure Path.Ordinary (n : String) : Prop extends Path.IsName n where
  noNul : '\x00' ∉ n.toList
  fits : n.utf8ByteSize ≤ maxName

instance (n : String) : Decidable (Path.Ordinary n) :=
  decidable_of_iff (((n ≠ "" ∧ n ≠ ".") ∧ n ≠ ".." ∧ '/' ∉ n.toList) ∧ '\x00' ∉ n.toList ∧
    n.utf8ByteSize ≤ maxName)
    ⟨fun ⟨⟨⟨notEmpty, notHere⟩, notUp, noSlash⟩, noNul, fits⟩ =>
      { notEmpty, notHere, notUp, noSlash, noNul, fits },
    fun n => ⟨⟨⟨n.notEmpty, n.notHere⟩, n.notUp, n.noSlash⟩, n.noNul, n.fits⟩⟩

open OtaAgent.Path (Ordinary)

/-- Other names for versions. Both the old and the new ones can name directories. -/
structure Renaming where
  rename : String → String
  ordinary {v : String} (isName : Ordinary v) : Ordinary (rename v)
  injective {v w : String} (first : Ordinary v) (second : Ordinary w)
    (same : rename v = rename w) : v = w

/-- The texts are the same but that some versions in the one have their other names in the other. -/
inductive Renaming.Respells (ρ : Renaming) : String → String → Prop
  | refl (text : String) : ρ.Respells text text
  | version {v : String} (ordinary : Ordinary v) : ρ.Respells v (ρ.rename v)
  | append {front front' back back' : String} (first : ρ.Respells front front')
      (second : ρ.Respells back back') : ρ.Respells (front ++ back) (front' ++ back')

namespace History

def ofBytes? (content : Bytes) : Option History :=
  ((Text.Utf8.decode? content).bind parse?).filter (·.isConsistent)

theorem ofBytes?_nil : ofBytes? [] = none := by
  have unread : parse? "" = none := by decide +kernel
  simp [ofBytes?, Text.Utf8.decode?, Text.Utf8.decodeChars?, Text.Utf8.decodeLoop, unread]

theorem ofBytes?_encode {h : History} (sorted : h.backups.Sorted)
    (consistent : h.isConsistent = true) : ofBytes? (Text.Utf8.encode h.text) = some h := by
  simp [ofBytes?, Text.Utf8.decode?_encode, parse?_text sorted, consistent]

end History

namespace Archive

variable (a : Archive)

/-- The directory holds the backups of a package, those of each version in a directory of its own,
and it does not hold the histories. -/
def Shelf (cwd at_ : Location) : Prop :=
  at_ ≠ [] ∧ at_.dropLast = a.backupDir.lead cwd ∧ ¬ at_ <+: a.versionDir.lead cwd

instance (cwd at_ : Location) : Decidable (a.Shelf cwd at_) :=
  inferInstanceAs (Decidable (_ ∧ _ ∧ _))

/-- An entry of the directory of the histories. -/
def InStore (cwd at_ : Location) : Prop := at_ ≠ [] ∧ at_.dropLast = a.versionDir.lead cwd

instance (cwd at_ : Location) : Decidable (a.InStore cwd at_) := inferInstanceAs (Decidable (_ ∧ _))

/-- A package and a package file may have a name of this length: the path of the backup does not
get too long by any version. -/
def LeavesRoom (n : String) : Prop :=
  a.backupDir.text.utf8ByteSize + maxName + 2 * n.utf8ByteSize + 3 < maxPath

instance (n : String) : Decidable (a.LeavesRoom n) := Nat.decLt _ _

/-- The ways to the directories of the archive do not lead through the backups of a package. -/
structure Steady (cwd : Location) : Prop where
  versionDir : ∀ at_, a.versionDir.Passes cwd at_ → ¬ a.Shelf cwd at_
  backupDir : ∀ at_, a.backupDir.Passes cwd at_ → ¬ a.Shelf cwd at_

/-- Whether a path passes the backups of a package can be found out from its names. -/
theorem clear_iff (cwd : Location) (p : Path) :
    (∀ at_, p.Passes cwd at_ → ¬ a.Shelf cwd at_) ↔ ∀ names ∈ p.names.inits,
      ¬ a.Shelf cwd (Path.follow (if p.isAbsolute then [] else cwd) names) := by
  constructor
  · intro clear names leads
    exact clear _ ⟨names, (List.mem_inits names p.names).mp leads, rfl⟩
  · rintro clear _ ⟨names, leads, rfl⟩
    exact clear names ((List.mem_inits names p.names).mpr leads)

instance (cwd : Location) (p : Path) : Decidable (∀ at_, p.Passes cwd at_ → ¬ a.Shelf cwd at_) :=
  decidable_of_iff _ (a.clear_iff cwd p).symm

instance (cwd : Location) : Decidable (a.Steady cwd) :=
  decidable_of_iff ((∀ at_, a.versionDir.Passes cwd at_ → ¬ a.Shelf cwd at_) ∧
    ∀ at_, a.backupDir.Passes cwd at_ → ¬ a.Shelf cwd at_)
    ⟨fun ⟨versionDir, backupDir⟩ => { versionDir, backupDir },
      fun steady => ⟨steady.versionDir, steady.backupDir⟩⟩

variable (ρ : Renaming) (cwd : Location)

/-- The directories of versions have the other names of the versions. -/
def labels : Labels where
  cwd
  label at_ n := if a.Shelf cwd at_ ∧ Ordinary n then ρ.rename n else n
  label_injective at_ n m same := by
    by_cases shelf : a.Shelf cwd at_
    · by_cases first : Ordinary n <;> by_cases second : Ordinary m <;>
        simp only [shelf, first, second, and_true, and_false, if_true, if_false] at same
      · exact ρ.injective first second same
      · exact absurd (same ▸ ρ.ordinary first) second
      · exact absurd (same ▸ ρ.ordinary second) first
      · exact same
    · simpa [shelf] using same
  label_here at_ := if_neg fun named => named.2.notHere rfl
  label_up at_ := if_neg fun named => named.2.notUp rfl
  label_fits at_ n := by
    split
    · rename_i named
      have fits := named.2.fits
      have fits' := (ρ.ordinary named.2).fits
      omega
    · rfl

/-- A package file by the other names of the versions. It is called the same unless it is among the
backups, keeps its own name in any case, and is none of the files in which the archive keeps its
histories. -/
structure RenamedFile (p p' : Path) : Prop where
  paths : (a.labels ρ cwd).Paths p p'
  respells : ρ.Respells p.text p'.text
  same (clear : ∀ at_, p.Passes cwd at_ → ¬ a.Shelf cwd at_) : p' = p
  fileName : p'.fileName? = p.fileName?
  fits (n : String) (named : p.fileName? = some n) : a.LeavesRoom n
  outside : ¬ a.InStore cwd (p.lead cwd)

/-- Versions by their other names, and files where these lead. -/
def correspondence : Correspondence where
  version v v' := Ordinary v ∧ v' = ρ.rename v
  file := a.RenamedFile ρ cwd
  known package := a.LeavesRoom package ∧ a.Shelf cwd (a.backupDir.lead cwd ++ [package])
  version_iff first second := by
    obtain ⟨ordinary, rfl⟩ := first
    obtain ⟨ordinary', rfl⟩ := second
    exact ⟨congrArg ρ.rename, ρ.injective ordinary ordinary'⟩

/-- Histories are written in the other names; all other files hold the same. -/
def relabelling : Relabelling where
  toLabels := a.labels ρ cwd
  held at_ content content' :=
    (a.InStore cwd at_ → Option.Rel (a.correspondence ρ cwd).Histories
      (History.ofBytes? content) (History.ofBytes? content')) ∧
    (¬ a.InStore cwd at_ → content' = content)
  held_nil at_ := by
    rw [History.ofBytes?_nil]
    exact ⟨fun _ => .none, fun _ => rfl⟩

variable {a ρ cwd} {package n v v' : String} {p p' : Path}

section Paths

theorem label_of_not_shelf {at_ : Location} (other : ¬ a.Shelf cwd at_) (n : String) :
    (a.labels ρ cwd).label at_ n = n := if_neg fun named => other named.1

/-- A path that passes no directory with other names leads to the same. -/
theorem paths_self (clear : ∀ at_, p.Passes cwd at_ → ¬ a.Shelf cwd at_) :
    (a.labels ρ cwd).Paths p p where
  fault := rfl
  isAbsolute := rfl
  slash := rfl
  names := by
    refine (Labels.names_eq_self fun front n leads => ?_).symm
    exact label_of_not_shelf (clear _ ⟨front, (List.prefix_append front [n]).trans leads, rfl⟩) n

/-- A package file that is not among the backups is called the same. -/
theorem file_self (clear : ∀ at_, p.Passes cwd at_ → ¬ a.Shelf cwd at_)
    (fits : ∀ n, p.fileName? = some n → a.LeavesRoom n)
    (outside : ¬ a.InStore cwd (p.lead cwd)) : a.RenamedFile ρ cwd p p where
  paths := paths_self clear
  respells := .refl _
  same _ := rfl
  fileName := rfl
  fits := fits
  outside := outside

theorem not_shelf_versionDir : ¬ a.Shelf cwd (a.versionDir.lead cwd) :=
  fun shelf => shelf.2.2 List.prefix_rfl

theorem not_shelf_backupDir : ¬ a.Shelf cwd (a.backupDir.lead cwd) := by
  rintro ⟨below, above, -⟩
  have long := congrArg List.length above
  have some_ := List.length_pos_iff.mpr below
  rw [List.length_dropLast] at long
  omega

/-- A name in the directory of the histories is the same by the other names. -/
theorem paths_store (steady : a.Steady cwd) (isName : Path.IsName n) :
    (a.labels ρ cwd).Paths (a.versionDir.join n) (a.versionDir.join n) :=
  (paths_self steady.versionDir).join isName isName (label_of_not_shelf not_shelf_versionDir n) rfl

theorem inStore_join (isName : Path.IsName n) : a.InStore cwd ((a.versionDir.join n).lead cwd) := by
  rw [Path.lead_join _ _ isName]
  exact ⟨by simp, by simp⟩

theorem paths_backups (steady : a.Steady cwd) (isName : Path.IsName package) :
    (a.labels ρ cwd).Paths (a.backupDir.join package) (a.backupDir.join package) :=
  (paths_self steady.backupDir).join isName isName (label_of_not_shelf not_shelf_backupDir package)
    rfl

/-- Whether the text of a path is refused does not depend on a name in it, where there is room. -/
theorem textFault?_of_middle {stem rest w w' : String} (first : Ordinary w) (second : Ordinary w')
    (room : stem.utf8ByteSize + maxName + rest.utf8ByteSize < maxPath) :
    Tree.textFault? ⟨stem ++ w ++ rest⟩ = Tree.textFault? ⟨stem ++ w' ++ rest⟩ := by
  have full {w : String} (ordinary : Ordinary w) : (stem ++ w ++ rest).toList ≠ [] := by
    simp [ordinary.notEmpty]
  have short {w : String} (ordinary : Ordinary w) :
      ¬ maxPath ≤ (stem ++ w ++ rest).utf8ByteSize := by
    have fits := ordinary.fits
    simp only [String.utf8ByteSize_append]
    omega
  have nul {w : String} (ordinary : Ordinary w) : '\x00' ∈ (stem ++ w ++ rest).toList ↔
      '\x00' ∈ stem.toList ∨ '\x00' ∈ rest.toList := by
    simp [ordinary.noNul]
  unfold Tree.textFault?
  simp only [full first, full second, short first, short second, nul first, nul second]

theorem size_join_le (dir : Path) (isName : Path.IsName n) :
    (dir.join n).text.utf8ByteSize ≤ dir.text.utf8ByteSize + 1 + n.utf8ByteSize := by
  have slash : "/".utf8ByteSize = 1 := rfl
  unfold Path.join
  rw [isName.not_isAbsolute]
  simp only [Bool.false_eq_true, if_false]
  split
  · simp only [String.utf8ByteSize_append]
    omega
  · simp only [String.utf8ByteSize_append]
    omega

/-- What is joined to a path that ends in a name comes after a slash. -/
theorem text_join_join {m : String} (dir : Path) (isName : Path.IsName n)
    (isLower : Path.IsName m) :
    ((dir.join n).join m).text = (dir.join n).text ++ ("/" ++ m) := by
  have full := Path.toList_join_ne_nil dir isName
  have noSlash := Path.getLast?_join_ne dir isName
  have ends : ¬ ((dir.join n).text.isEmpty ||
      (dir.join n).text.toList.getLast? == some '/') = true := by
    simpa [String.isEmpty_iff, noSlash] using full
  rw [Path.join, isLower.not_isAbsolute, if_neg Bool.false_ne_true, if_neg ends,
    String.append_assoc]

variable {file file' : Path}

/-- The directory of a version has the other name of the version. -/
theorem paths_version (steady : a.Steady cwd) (isName : Path.IsName package)
    (known : (a.correspondence ρ cwd).known package)
    (version : (a.correspondence ρ cwd).version v v') :
    (a.labels ρ cwd).Paths ((a.backupDir.join package).join v)
      ((a.backupDir.join package).join v') := by
  obtain ⟨ordinary, rfl⟩ := version
  have ordinary' := ρ.ordinary ordinary
  obtain ⟨stem, text⟩ := Path.text_join (a.backupDir.join package)
  have short : stem.utf8ByteSize ≤ a.backupDir.text.utf8ByteSize + package.utf8ByteSize + 2 := by
    have size := size_join_le (a.backupDir.join package) ordinary.toIsName
    have size' := size_join_le a.backupDir isName
    rw [text ordinary.toIsName, String.utf8ByteSize_append] at size
    omega
  have room : stem.utf8ByteSize + maxName + "".utf8ByteSize < maxPath := by
    have fits := known.1
    have none_ : "".utf8ByteSize = 0 := rfl
    unfold LeavesRoom at fits
    omega
  refine (paths_backups steady isName).join ordinary.toIsName ordinary'.toIsName ?_ ?_
  · refine if_pos ⟨?_, ordinary⟩
    rw [Path.lead_join _ _ isName]
    exact known.2
  · have same := textFault?_of_middle ordinary' ordinary room
    simpa [← text ordinary.toIsName, ← text ordinary'.toIsName] using same

theorem lead_version (isName : Path.IsName package) (ordinary : Ordinary v) :
    ((a.backupDir.join package).join v).lead cwd = a.backupDir.lead cwd ++ [package] ++ [v] := by
  rw [Path.lead_join _ _ ordinary.toIsName, Path.lead_join _ _ isName]

/-- A file is backed up under its own name, in the directory of its version. -/
theorem file_backupPath (steady : a.Steady cwd) (isName : Path.IsName package)
    (known : (a.correspondence ρ cwd).known package)
    (version : (a.correspondence ρ cwd).version v v')
    (files : (a.correspondence ρ cwd).file file file') :
    (a.correspondence ρ cwd).file (a.backupPath package v file)
      (a.backupPath package v' file') := by
  have dirs := paths_version steady isName known version
  obtain ⟨ordinary, rfl⟩ := version
  have ordinary' := ρ.ordinary ordinary
  have named : Path.IsName (file.fileName?.getD package) := isName_backup isName
  have fits : a.LeavesRoom (file.fileName?.getD package) := by
    cases found : file.fileName? with
    | none => exact known.1
    | some name => exact files.fits name found
  unfold backupPath
  rw [files.fileName]
  generalize file.fileName?.getD package = name at named fits ⊢
  obtain ⟨stem, text⟩ := Path.text_join (a.backupDir.join package)
  have whole {w : String} (ordinary : Ordinary w) :
      (((a.backupDir.join package).join w).join name).text = stem ++ w ++ ("/" ++ name) := by
    rw [text_join_join _ ordinary.toIsName named, text ordinary.toIsName]
  have room : stem.utf8ByteSize + maxName + ("/" ++ name).utf8ByteSize < maxPath := by
    have size := size_join_le (a.backupDir.join package) ordinary.toIsName
    have size' := size_join_le a.backupDir isName
    have slash : "/".utf8ByteSize = 1 := rfl
    have short := known.1
    unfold LeavesRoom at fits short
    rw [text ordinary.toIsName, String.utf8ByteSize_append] at size
    rw [String.utf8ByteSize_append]
    omega
  have through : Path.Above (a.backupDir.join package)
      (((a.backupDir.join package).join v).join name) :=
    (Path.above_join _ ordinary.toIsName).trans (Path.above_join _ named)
  refine ⟨dirs.join named named ?_ ?_, ?_, fun clear => ?_, ?_, ?_, ?_⟩
  · apply label_of_not_shelf
    rintro ⟨-, above, -⟩
    rw [lead_version isName ordinary, List.dropLast_concat] at above
    exact not_shelf_backupDir (above ▸ known.2)
  · have same := textFault?_of_middle ordinary' ordinary room
    rw [← whole ordinary, ← whole ordinary'] at same
    exact same
  · rw [whole ordinary, whole ordinary']
    exact .append (.append (.refl _) (.version ordinary)) (.refl _)
  · have here := clear _ (through.passes cwd)
    rw [Path.lead_join _ _ isName] at here
    exact absurd known.2 here
  · rw [Path.fileName?_join _ named, Path.fileName?_join _ named]
  · intro n found
    rw [Path.fileName?_join _ named] at found
    exact Option.some.inj found ▸ fits
  · rintro ⟨-, above⟩
    rw [Path.lead_join _ _ named, List.dropLast_concat, lead_version isName ordinary] at above
    exact known.2.2.2 (above ▸ List.prefix_append _ _)

end Paths

section Jobs

variable {r r' : Receipt}

theorem jobs_checkName (package : String) :
    (a.relabelling ρ cwd).Jobs (fun _ _ => True) (checkName package) (checkName package) := by
  unfold checkName
  split
  · exact Relabelling.jobs_pure trivial
  · exact Relabelling.jobs_throw _ _

theorem held_of_inStore {at_ : Location} (inStore : a.InStore cwd at_) (content content' : Bytes) :
    (a.relabelling ρ cwd).held at_ content content' ↔
      Option.Rel (a.correspondence ρ cwd).Histories (History.ofBytes? content)
        (History.ofBytes? content') :=
  ⟨fun both => both.1 inStore, fun both => ⟨fun _ => both, absurd inStore⟩⟩

theorem held_of_not_inStore {at_ : Location} (other : ¬ a.InStore cwd at_)
    (content content' : Bytes) :
    (a.relabelling ρ cwd).held at_ content content' ↔ content' = content :=
  ⟨fun both => both.2 other, fun both => ⟨fun inStore => absurd inStore other, fun _ => both⟩⟩

variable (a) in
def loadFrom (package : String) (content : Bytes) : FileJob (Option History) :=
  match Text.Utf8.decode? content with
  | none => throw (.archive (.unreadable (a.historyPath package) .notText))
  | some text => do return some (← ExceptT.mk (pure (a.interpret package text)))

theorem load_eq (package : String) : a.load package = checkName package >>= fun _ =>
    Job.ask (.read (a.historyPath package)) >>= fun reply => match reply with
      | .error .notFound => return none
      | .error e => throw (.archive (.unreadable (a.historyPath package) e))
      | .ok content => a.loadFrom package content := rfl

/-- A history is loaded if the file says one; otherwise it is an error. -/
theorem runOn_loadFrom (package : String) (content : Bytes) (t : Tree) :
    ∃ result, (a.loadFrom package content).runOn t = (result, t) ∧
      result.toOption = (History.ofBytes? content).map some := by
  unfold loadFrom History.ofBytes?
  cases Text.Utf8.decode? content with
  | none => exact ⟨_, rfl, rfl⟩
  | some text =>
    refine ⟨(a.interpret package text).map some, ?_, ?_⟩
    · dsimp only
      cases a.interpret package text <;> rfl
    · unfold interpret
      cases parsed : History.parse? text with
      | none => simp [parsed, Except.map, Except.toOption]
      | some history =>
        by_cases consistent : history.isConsistent <;>
          simp [parsed, consistent, Except.map, Except.toOption, Option.filter]

theorem jobs_loadFrom {content content' : Bytes}
    (both : Option.Rel (a.correspondence ρ cwd).Histories (History.ofBytes? content)
      (History.ofBytes? content')) :
    (a.relabelling ρ cwd).Jobs (Option.Rel (a.correspondence ρ cwd).Histories)
      (a.loadFrom package content) (a.loadFrom package content') := by
  intro t t' trees
  obtain ⟨result, ran, said⟩ := runOn_loadFrom (a := a) package content t
  obtain ⟨result', ran', said'⟩ := runOn_loadFrom (a := a) package content' t'
  rw [ran, ran']
  refine ⟨?_, trees⟩
  generalize History.ofBytes? content = held at both said
  generalize History.ofBytes? content' = held' at both said'
  cases both with
  | none =>
    cases result with
    | ok => cases said
    | error e => cases result' with
      | ok => cases said'
      | error e' => exact .error trivial
  | some histories =>
    rw [eq_ok_of_toOption said, eq_ok_of_toOption said']
    exact .ok (.some histories)

theorem jobs_load (steady : a.Steady cwd) (package : String) :
    (a.relabelling ρ cwd).Jobs (Option.Rel (a.correspondence ρ cwd).Histories) (a.load package)
      (a.load package) := by
  by_cases valid : canNameFile package = true
  · have isName := isName_of_canNameFile valid
    rw [load_eq]
    refine .bind (jobs_checkName package) fun _ _ _ => ?_
    refine .bind (Relabelling.jobs_ask_read (paths_store steady isName)) fun reply reply' both => ?_
    cases both with
    | @error e e' same =>
      subst same
      cases e with
      | notFound => exact Relabelling.jobs_pure .none
      | _ => exact Relabelling.jobs_throw _ _
    | ok both => exact jobs_loadFrom ((held_of_inStore (inStore_join isName) _ _).mp both)
  · intro t t' trees
    rw [load_eq, checkName, if_neg valid]
    exact ⟨.error trivial, trees⟩

/-- What is read of a history says the same in the other names. -/
theorem get?_relabelled (steady : a.Steady cwd) {t t' : Tree}
    (trees : (a.relabelling ρ cwd).Trees t t') (package : String) :
    Option.Rel (a.correspondence ρ cwd).Histories (a.get? t package) (a.get? t' package) := by
  unfold get?
  have both := (jobs_load steady package t t' trees).1
  generalize ((a.load package).runOn t).1 = result at both ⊢
  generalize ((a.load package).runOn t').1 = result' at both ⊢
  cases both with
  | ok histories => exact histories
  | error => exact .none

theorem jobs_makeVersionDir (steady : a.Steady cwd) :
    (a.relabelling ρ cwd).Jobs (fun _ _ => True) a.makeVersionDir a.makeVersionDir :=
  .bind (Relabelling.jobs_makeDirs (paths_self steady.versionDir).ancestry) fun _ _ _ =>
    Relabelling.jobs_pure trivial

theorem jobs_openLock (steady : a.Steady cwd) (isName : Path.IsName package) :
    (a.relabelling ρ cwd).Jobs (fun _ _ => True) (a.openLock package) (a.openLock package) :=
  .bind (Relabelling.jobs_touch (paths_store steady (isName_lock isName))) fun _ _ _ =>
    Relabelling.jobs_pure trivial

theorem jobs_base (steady : a.Steady cwd) (version : (a.correspondence ρ cwd).version v v')
    (package : String) :
    (a.relabelling ρ cwd).Jobs (a.correspondence ρ cwd).Histories (a.base package v)
      (a.base package v') := by
  intro t t' trees
  rw [runOn_base, runOn_base]
  refine ⟨.ok ?_, trees⟩
  have both := get?_relabelled steady trees package
  generalize a.get? t package = found at both ⊢
  generalize a.get? t' package = found' at both ⊢
  cases both with
  | none => exact Correspondence.histories_fresh version
  | some histories => exact histories

/-- The history that is put in place says the same in the other names. -/
theorem jobs_replace {h h' : History} (steady : a.Steady cwd) (isName : Path.IsName package)
    (histories : (a.correspondence ρ cwd).Histories h h') (consistent : h.isConsistent = true) :
    (a.relabelling ρ cwd).Jobs (fun _ _ => True) (a.replace package h) (a.replace package h') := by
  have consistent' := histories.isConsistent.trans consistent
  have draft := paths_store (ρ := ρ) steady (isName_draft isName)
  have among : a.InStore cwd ((a.versionDir.join (package ++ ".tmp")).lead cwd) :=
    inStore_join (isName_draft isName)
  have drafted (h : History) : a.replace package h =
      (Job.attempt (.create (a.draftPath package))
          (fun e => Error.archive (.notCreated (a.draftPath package) e)) >>= fun _ =>
        Job.attempt (.append (a.draftPath package) (Text.Utf8.encode h.text))
          (fun e => Error.archive (.notWritten (a.draftPath package) e))) >>= fun _ =>
        Job.attempt (.rename (a.draftPath package) (a.historyPath package))
          (fun e => Error.archive (.notReplaced (a.historyPath package) (a.draftPath package) e))
          >>= fun _ => pure () :=
    (Job.bind_assoc ..).symm
  rw [drafted, drafted, draftPath_eq_join isName]
  refine .bind (Relabelling.jobs_write draft ?_) fun _ _ _ =>
    .bind (Relabelling.jobs_rename draft (paths_store steady isName) ?_) fun _ _ _ =>
      Relabelling.jobs_pure trivial
  · refine (held_of_inStore among _ _).mpr ?_
    rw [History.ofBytes?_encode histories.sorted consistent,
      History.ofBytes?_encode histories.sorted' consistent']
    exact .some histories
  · intro content content' both
    exact (held_of_inStore (inStore_join isName) _ _).mpr ((held_of_inStore among _ _).mp both)

theorem jobs_backUp (steady : a.Steady cwd) (isName : Path.IsName r.package)
    (receipts : (a.correspondence ρ cwd).Receipts r r') :
    (a.relabelling ρ cwd).Jobs (a.correspondence ρ cwd).file (a.backUp r) (a.backUp r') := by
  have backups := file_backupPath steady isName receipts.known receipts.version receipts.file
  have dirs := paths_version steady isName receipts.known receipts.version
  obtain ⟨ordinary, version⟩ := receipts.version
  have ordinary' := ρ.ordinary ordinary
  have named : Path.IsName (r.file.fileName?.getD r.package) := isName_backup isName
  have up : (a.backupPath r.package r.version r.file).parent? =
      some ((a.backupDir.join r.package).join r.version) :=
    Path.parent?_join _ ordinary.toIsName named
  have up' : (a.backupPath r.package r'.version r'.file).parent? =
      some ((a.backupDir.join r.package).join r'.version) := by
    unfold backupPath
    rw [receipts.file.fileName, version]
    exact Path.parent?_join _ ordinary'.toIsName named
  have above : List.Forall₂ (a.labels ρ cwd).Paths
      ((a.backupDir.join r.package).join r.version).ancestry
      ((a.backupDir.join r.package).join r'.version).ancestry := by
    rw [version] at dirs ⊢
    rw [Path.ancestry_join isName ordinary.toIsName, Path.ancestry_join isName ordinary'.toIsName]
    exact .cons dirs (paths_backups steady isName).ancestry
  unfold backUp
  simp only [receipts.package, backups.paths.same receipts.file.paths, up, up']
  split
  · exact Relabelling.jobs_pure backups
  · refine .bind (Relabelling.jobs_makeDirs above) fun _ _ _ =>
      .bind (Relabelling.jobs_copy receipts.file.paths backups.paths ?_) fun _ _ _ =>
        Relabelling.jobs_pure backups
    intro content content' both
    exact (held_of_not_inStore backups.outside _ _).mpr
      ((held_of_not_inStore receipts.file.outside _ _).mp both)

/-- Recording an install comes to the same in the other names. -/
theorem jobs_record (steady : a.Steady cwd) (receipts : (a.correspondence ρ cwd).Receipts r r') :
    (a.relabelling ρ cwd).Jobs (a.correspondence ρ cwd).Histories (a.record r) (a.record r') := by
  by_cases valid : canNameFile r.package = true
  · have isName := isName_of_canNameFile valid
    have digest : r'.digest? = r.digest? := by
      rw [Receipt.digest?, Receipt.digest?, receipts.received, receipts.computed]
    unfold record
    rw [receipts.package, digest, receipts.downloaded]
    refine .bind (jobs_checkName _) fun _ _ _ => .bind (jobs_makeVersionDir steady) fun _ _ _ =>
      .bind (jobs_backUp steady isName receipts) fun backup backup' kept =>
        .bind (jobs_openLock steady isName) fun _ _ _ =>
          .bind (jobs_base steady receipts.version _) fun base base' histories => ?_
    have installed := histories.install receipts.version
      (⟨rfl, rfl, kept⟩ : (a.correspondence ρ cwd).Backups
        ⟨r.downloaded, (r.digest?.map (·.text)).getD "", backup⟩
        ⟨r.downloaded, (r.digest?.map (·.text)).getD "", backup'⟩)
    exact .bind (jobs_replace steady isName installed (isConsistent_install ..)) fun _ _ _ =>
      Relabelling.jobs_pure installed
  · intro t t' trees
    rw [record_eq, record_eq, receipts.package, checkName, if_neg valid]
    exact ⟨.error trivial, trees⟩

/-- Going back to a version comes to the same in the other names. -/
theorem jobs_reinstate (steady : a.Steady cwd)
    (version : (a.correspondence ρ cwd).version v v') (package : String) :
    (a.relabelling ρ cwd).Jobs (a.correspondence ρ cwd).Histories (a.reinstate package v)
      (a.reinstate package v') := by
  by_cases valid : canNameFile package = true
  · have isName := isName_of_canNameFile valid
    refine .bind (jobs_checkName _) fun _ _ _ => .bind (jobs_makeVersionDir steady) fun _ _ _ =>
      .bind (jobs_openLock steady isName) fun _ _ _ =>
        .bind (jobs_load steady package) fun found found' both => ?_
    cases both with
    | none => exact Relabelling.jobs_throw _ _
    | @some history history' histories =>
      have current : history.current = v ↔ history'.current = v' :=
        (a.correspondence ρ cwd).version_iff histories.current version
      dsimp only
      rw [histories.contains version]
      by_cases contained : history.backups.contains v = true
      · simp only [contained, Bool.not_true, Bool.false_eq_true, if_false]
        by_cases here : history.current = v
        · rw [if_pos here, if_pos (current.mp here)]
          exact Relabelling.jobs_pure histories
        · rw [if_neg here, if_neg (mt current.mpr here)]
          have restored := histories.goBackTo version
          exact .bind (jobs_replace steady isName restored (isConsistent_goBackTo contained))
            fun _ _ _ => Relabelling.jobs_pure restored
      · simp only [contained, Bool.not_false, if_true]
        exact Relabelling.jobs_throw _ _
  · intro t t' trees
    rw [reinstate, reinstate, checkName, if_neg valid]
    exact ⟨.error trivial, trees⟩

/-- A package file has the same digest. -/
theorem jobs_fileDigest (files : (a.correspondence ρ cwd).file p p') :
    (a.relabelling ρ cwd).Jobs Eq (fileDigest p) (fileDigest p') := by
  refine .bind (Relabelling.jobs_openFile files.paths) fun _ _ _ =>
    .bind (Relabelling.jobs_read files.paths) fun content content' both => ?_
  rw [(held_of_not_inStore files.outside _ _).mp both]
  exact Relabelling.jobs_pure rfl

end Jobs

end Archive
end OtaAgent
