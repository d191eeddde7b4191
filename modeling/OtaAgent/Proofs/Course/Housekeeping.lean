import OtaAgent.Proofs.Archive.Keeping
import OtaAgent.Proofs.Course.Announcing
import OtaAgent.Proofs.Course.Checksums
import OtaAgent.Proofs.Shelves

set_option autoImplicit false

namespace OtaAgent

open Files

/-- A device with an agent of the bench that checks digests and fetches nothing. Its directories are
there and empty at the beginning, and none of them lies in another. -/
structure Household where
  bench : Bench
  outside : Outside
  archive : Archive
  profile : Profile
  onDevice : bench.delivery = .onDevice
  verifies : profile.verifyChecksum = true
  base : Tree
  sound : base.Sound
  cache : Location
  backups : Location
  records : Location
  cacheDir : base.Opened bench.cacheDir cache
  backupDir : base.Opened archive.backupDir backups
  versionDir : base.Opened archive.versionDir records
  empty : ∀ at_ ∈ [cache, backups, records], ∀ name more, base.node? (at_ ++ name :: more) = none
  apart : [cache, backups, records].Pairwise fun at_ other => ¬ at_ <+: other ∧ ¬ other <+: at_
  names : String → Prop
  naming : Archive.Naming names

namespace Household

def device (home : Household) : Device Bench.Memory :=
  ⟨home.bench.agent home.outside, home.archive, home.profile⟩

/-- The order is for a package and a version that may be, and the files it offers do not lie in the
cache. -/
structure Fits (home : Household) (order : Order) : Prop where
  named : home.names order.release.name
  isVersion : Path.IsName order.target
  away : ∀ offer ∈ order.offers, ¬ home.cache <+: offer.file.lead home.base.cwd

/-- The directories are there, the archive is tidy and so is every shelf. -/
structure Orderly (home : Household) (t : Tree) : Prop where
  keepsDirs : home.base.KeepsDirs t
  archive : home.archive.Tidy home.names home.records home.backups t
  shelves : ∀ package, home.names package → t.Neat (home.cache ++ [package])

/-- The file of the update is on the shelf of its package, and is the one that was sent. -/
structure Shelved (home : Household) (t : Tree) (u : Update) : Prop where
  named : home.names u.name
  isVersion : Path.IsName u.version
  file : ∃ name, Path.IsName name ∧
    u.file = ((home.bench.shelf u.name).join u.version).join name
  there : ∃ content, t.read u.file = .ok content
  matches_ : Course.Matches t u

variable {home : Household} {t next : Tree} {package : String} {u : Update} {loc : Location}

section Places

theorem not_prefix_of_apart {at_ other : Location} (apart : ¬ at_ <+: other ∧ ¬ other <+: at_)
    (inside : at_ <+: loc) : ¬ other <+: loc := by
  intro insideOther
  rcases List.prefix_or_prefix_of_prefix inside insideOther with first | second
  · exact apart.1 first
  · exact apart.2 second

theorem cache_backups (home : Household) :
    ¬ home.cache <+: home.backups ∧ ¬ home.backups <+: home.cache := by
  have apart := home.apart
  simp only [List.pairwise_cons, List.mem_cons] at apart
  exact apart.1 _ (.inl rfl)

theorem cache_records (home : Household) :
    ¬ home.cache <+: home.records ∧ ¬ home.records <+: home.cache := by
  have apart := home.apart
  simp only [List.pairwise_cons, List.mem_cons] at apart
  exact apart.1 _ (.inr (.inl rfl))

theorem backups_records (home : Household) :
    ¬ home.backups <+: home.records ∧ ¬ home.records <+: home.backups := by
  have apart := home.apart
  simp only [List.pairwise_cons, List.mem_cons] at apart
  exact apart.2.1 _ (.inl rfl)

theorem vacant (home : Household) : home.bench.Vacant home.base home.cache where
  sound := home.sound
  opened := home.cacheDir
  empty := home.empty _ (by simp)

end Places

theorem Orderly.cacheDir (orderly : home.Orderly t) :
    t.Opened home.bench.cacheDir home.cache :=
  home.cacheDir.of_keepsDirs orderly.keepsDirs

/-- The files stay in order as long as nothing changes in the three directories. -/
theorem Orderly.of_same (orderly : home.Orderly t) (keepsDirs : home.base.KeepsDirs next)
    (cache : ∀ loc, home.cache <+: loc → next.node? loc = t.node? loc)
    (backups : ∀ loc, home.backups <+: loc → next.node? loc = t.node? loc)
    (records : ∀ loc, home.records <+: loc → next.node? loc = t.node? loc) :
    home.Orderly next where
  keepsDirs := keepsDirs
  archive := orderly.archive.of_same home.naming (home.sound.of_keepsDirs keepsDirs)
    (home.versionDir.of_keepsDirs keepsDirs) (home.backupDir.of_keepsDirs keepsDirs) records backups
  shelves package named := (orderly.shelves package named).of_same fun loc inside =>
    cache loc ((List.prefix_append _ _).trans inside)

/-- What happens on one shelf leaves the files in order if it leaves the shelf so. -/
theorem Orderly.of_shelf (orderly : home.Orderly t)
    (same : t.SameBut next (home.cache ++ [package])) (neat : next.Neat (home.cache ++ [package])) :
    home.Orderly next := by
  have keepsDirs := home.vacant.keepsDirs orderly.keepsDirs same
  have outside {loc : Location} (notCached : ¬ home.cache <+: loc) :
      next.node? loc = t.node? loc :=
    same.node loc fun inside => notCached ((List.prefix_append _ _).trans inside)
  refine ⟨keepsDirs, ?_, fun other named => ?_⟩
  · exact orderly.archive.of_same home.naming (home.sound.of_keepsDirs keepsDirs)
      (home.versionDir.of_keepsDirs keepsDirs) (home.backupDir.of_keepsDirs keepsDirs)
      (fun loc inside => outside (not_prefix_of_apart home.cache_records.symm inside))
      (fun loc inside => outside (not_prefix_of_apart home.cache_backups.symm inside))
  · by_cases this : package = other
    · exact this ▸ neat
    · refine (orderly.shelves other named).of_same fun loc inside => same.node loc fun here => ?_
      obtain ⟨more, rfl⟩ := inside
      rw [List.append_assoc, List.prefix_append_right_inj, List.singleton_append,
        List.cons_prefix_cons] at here
      exact this here.1

theorem Shelved.below (shelved : home.Shelved t u) :
    ∃ name, Path.Below home.bench.cacheDir [u.name, u.version, name] u.file := by
  obtain ⟨name, isFile, file⟩ := shelved.file
  rw [file]
  exact ⟨name, ((Path.below_join _ (home.naming.isName _ shelved.named)).join
    shelved.isVersion).join isFile⟩

/-- What is staged stays so as long as nothing changes in the cache. -/
theorem Shelved.of_same (shelved : home.Shelved t u) (orderly : home.Orderly t)
    (keepsDirs : home.base.KeepsDirs next)
    (cache : ∀ loc, home.cache <+: loc → next.node? loc = t.node? loc) : home.Shelved next u where
  named := shelved.named
  isVersion := shelved.isVersion
  file := shelved.file
  there := by
    obtain ⟨name, below⟩ := shelved.below
    obtain ⟨content, held⟩ := shelved.there
    exact ⟨content, orderly.cacheDir.read_of_same (home.cacheDir.of_keepsDirs keepsDirs) below
      (by simp) cache held⟩
  matches_ := by
    obtain ⟨name, below⟩ := shelved.below
    intro text received
    obtain ⟨content, held, parsed⟩ := shelved.matches_ text received
    exact ⟨content, orderly.cacheDir.read_of_same (home.cacheDir.of_keepsDirs keepsDirs) below
      (by simp) cache held, parsed⟩

section Staging

open Course

variable {order : Order} {site middle after : Site Bench.Memory} {brought : Update}
  {calls : List Call} {said : List Json}

/-- The agent brings nothing: all files are on the device. -/
theorem transferFile_eq (home : Household) (u : Update) (site : Site Bench.Memory) :
    home.device.agent.transferFile u site = (.ok ⟨0, none⟩, site) := by
  show home.bench.bringHook home.outside u site = _
  unfold Bench.bringHook
  rw [home.onDevice]
  rfl

theorem eq_of_brings (brings : Brings home.device site u calls said after brought) :
    after = site ∧ brought.name = u.name ∧ brought.version = u.version ∧
      brought.file = u.file := by
  cases brings with
  | backup isBackup => exact ⟨rfl, rfl, rfl, rfl⟩
  | transfer notBackup answered success =>
    rw [transferFile_eq] at answered
    cases answered
    exact ⟨rfl, rfl, rfl, rfl⟩

/-- What is planned for an order that fits lies outside the cache. -/
theorem Orderly.away_of_plan (orderly : home.Orderly t) (fits : home.Fits order)
    (plan : plan? home.device t order = some u) : ¬ home.cache <+: u.file.lead t.cwd := by
  unfold plan? at plan
  split at plan
  · rename_i offer offered
    cases plan
    rw [orderly.keepsDirs.cwd]
    exact fits.away offer (List.mem_of_find?_eq_some offered)
  · split at plan
    · obtain ⟨backup, kept, rfl⟩ := Option.map_eq_some_iff.mp plan
      obtain ⟨h, found, kept⟩ := Option.bind_eq_some_iff.mp kept
      have stored := orderly.archive.stored _ fits.named h found _ backup kept
      obtain ⟨name, isFile, file⟩ := stored.place
      have isName := home.naming.isName _ fits.named
      have lead := orderly.archive.lead_backup isName stored.isName isFile
      show ¬ home.cache <+: backup.file.lead t.cwd
      rw [file, lead]
      exact not_prefix_of_apart home.cache_backups.symm (List.prefix_append _ _)
    · cases plan

theorem Orderly.prepared {answer : Answer Prepared} (orderly : home.Orderly site.files)
    (named : home.names u.name) (isVersion : Path.IsName u.version)
    (away : ¬ home.cache <+: u.file.lead site.files.cwd)
    (answered : home.device.agent.prepareInstall u site = (answer, after)) :
    home.Orderly after.files ∧ ∀ newPath, answer = .ok ⟨.ready, newPath⟩ →
      newPath = some (home.bench.shelfPath u) ∧
      ∃ content, after.files.read (home.bench.shelfPath u) = .ok content ∧
        site.files.content? (u.file.lead site.files.cwd) = some content := by
  obtain ⟨same, neat, ready⟩ := home.vacant.prepare orderly.keepsDirs
    (home.naming.isName _ named) isVersion (orderly.shelves _ named) away
  have ran : Hook.ofJob (home.bench.prepare u) site = (answer, after) := answered
  unfold Hook.ofJob at ran
  cases prepared : (home.bench.prepare u).runOn site.files with
  | mk result files =>
    rw [prepared] at ran same neat ready
    cases ran
    refine ⟨orderly.of_shelf same neat, fun newPath ok => ready newPath ?_⟩
    cases result with
    | ok outcome => exact congrArg Except.ok (Except.ok.inj ok)
    | error e => cases ok

/-- An update whose file is put where it belongs is on its shelf. -/
theorem shelved_relocated {path : Path} {content : Bytes} (named : home.names u.name)
    (isVersion : Path.IsName u.version) (here : path = home.bench.shelfPath u)
    (held : t.read path = .ok content)
    (sent : ∀ text, u.received = some text → Digest.parse? text = some (.ofContent content)) :
    home.Shelved t { u.relocated (some path) with prepared := some .ready } where
  named := named
  isVersion := isVersion
  file := ⟨_, Bench.isName_shelfName (home.naming.isName _ named) isVersion, here⟩
  there := ⟨content, held⟩
  matches_ text received := ⟨content, held, sent text received⟩

/-- Staging leaves the files in order, and what is ready is on its shelf. -/
theorem Orderly.of_makesReady {result : Readiness} (orderly : home.Orderly site.files)
    (named : home.names u.name) (isVersion : Path.IsName u.version)
    (away : ¬ home.cache <+: u.file.lead site.files.cwd)
    (goes : MakesReady home.device order site u calls said after result) :
    home.Orderly after.files ∧ ∀ v, result = .ready v → home.Shelved after.files v := by
  cases goes with
  | notBrought notBackup answered failed =>
    rw [transferFile_eq] at answered
    cases answered
    exact absurd rfl (failed _ rfl)
  | refused brings mismatch =>
    obtain ⟨rfl, -⟩ := eq_of_brings brings
    exact ⟨orderly, by simp⟩
  | notStaged brings checked answered failed =>
    rename_i middle brought answer
    obtain ⟨rfl, name, version, file⟩ := eq_of_brings brings
    rw [← name] at named
    rw [← version] at isVersion
    rw [← file] at away
    exact ⟨(orderly.prepared named isVersion away answered).1, by simp⟩
  | ready brings checked answered =>
    rename_i middle brought newPath
    obtain ⟨rfl, name, version, file⟩ := eq_of_brings brings
    rw [← name] at named
    rw [← version] at isVersion
    rw [← file] at away
    obtain ⟨orderly', ready⟩ := orderly.prepared named isVersion away answered
    obtain ⟨rfl, content, held, there⟩ := ready newPath rfl
    refine ⟨orderly', fun v same => ?_⟩
    cases same
    refine shelved_relocated named isVersion rfl held fun text received => ?_
    obtain ⟨sent, read, parsed⟩ := digest_of_checkDigest home.verifies checked received
    obtain rfl := Option.some.inj (there.symm.trans (Tree.placed_of_read read).2)
    exact parsed

theorem Orderly.of_stages {result : Readiness} (orderly : home.Orderly site.files)
    (fits : home.Fits order) (stages : Stages home.device order site calls said after result) :
    home.Orderly after.files ∧ ∀ v, result = .ready v → home.Shelved after.files v := by
  cases stages with
  | missing | wanted => exact ⟨orderly, by simp⟩
  | planned plan goes =>
    have release := release_of_plan plan
    have named := fits.named
    have isVersion := fits.isVersion
    refine orderly.of_makesReady ?_ ?_ (orderly.away_of_plan fits plan) goes
    · rw [Update.name, release]
      exact named
    · rw [Update.version, release]
      exact isVersion

end Staging

section Installing

open Course

variable {order : Order} {site middle after : Site Bench.Memory} {previous : Option String}
  {calls : List Call} {said : List Json} {reached status : InstallStatus}

/-- What concerns the archive of one package leaves the files in order if it leaves the archive
tidy. -/
theorem Orderly.of_change (orderly : home.Orderly t)
    (archive : home.archive.Tidy home.names home.records home.backups next)
    (grows : t.Grows next (home.backups ++ [package] <+: ·))
    (keeps : t.Keeps next fun loc =>
      home.backups ++ [package] <+: loc ∨ home.archive.Belongs t package loc) :
    home.Orderly next where
  keepsDirs := orderly.keepsDirs.trans grows.keepsDirs
  archive := archive
  shelves other named := by
    refine (orderly.shelves other named).of_same fun loc inside => ?_
    have cached : home.cache <+: loc := (List.prefix_append _ _).trans inside
    have notBackedUp : ¬ home.backups ++ [package] <+: loc := fun here =>
      not_prefix_of_apart home.cache_backups cached ((List.prefix_append _ _).trans here)
    have notRecorded {n : String} : loc ≠ home.records ++ [n] := by
      rintro rfl
      exact not_prefix_of_apart home.cache_records cached (List.prefix_append _ _)
    refine grows.node? keeps notBackedUp ?_
    rintro (here | history | lock | draft)
    · exact notBackedUp here
    · rw [Archive.historyAt, orderly.archive.at_eq] at history
      exact notRecorded history
    · rw [orderly.archive.at_eq] at lock
      exact notRecorded lock
    · rw [orderly.archive.at_eq] at draft
      exact notRecorded draft

theorem Orderly.of_record (orderly : home.Orderly t) (shelved : home.Shelved t u) :
    home.Orderly ((home.archive.record (receiptOf t u)).runOn t).2 := by
  obtain ⟨content, held⟩ := shelved.there
  obtain ⟨name, below⟩ := shelved.below
  have isName := home.naming.isName _ shelved.named
  have away : ¬ home.backups <+: (receiptOf t u).file.lead t.cwd := by
    show ¬ home.backups <+: u.file.lead t.cwd
    rw [below.lead, orderly.cacheDir.lead_eq]
    exact not_prefix_of_apart home.cache_backups (List.prefix_append _ _)
  refine orderly.of_change ?_ (orderly.archive.grows_record isName shelved.isVersion)
    (orderly.archive.keepsChange_record isName shelved.isVersion)
  exact orderly.archive.record home.naming shelved.named shelved.isVersion away held
    (digest?_receiptOf shelved.matches_ held)

theorem Orderly.of_reinstate (orderly : home.Orderly t) (named : home.names package)
    (version : String) : home.Orderly ((home.archive.reinstate package version).runOn t).2 :=
  orderly.of_change (orderly.archive.reinstate home.naming named version)
    (orderly.archive.grows_reinstate package version)
    ((Archive.keeps_reinstate package version).imp fun _ => .inr)

theorem Orderly.of_clear (orderly : home.Orderly t) (named : home.names package)
    (placed : t.place (home.bench.shelf package) = .ok (.entry home.cache package false)) :
    home.Orderly ((Bench.clear (home.bench.shelf package)).runOn t).2 ∧
      ((Bench.clear (home.bench.shelf package)).runOn t).2.Empty (home.cache ++ [package]) := by
  rcases home.vacant.clear_cases orderly.keepsDirs (home.naming.isName _ named)
    (orderly.shelves _ named) with ⟨next, ran, same, empty⟩ | ⟨e, -, unplaced⟩
  · rw [ran]
    exact ⟨orderly.of_shelf same empty.neat, empty⟩
  · exact absurd placed (unplaced _)

theorem Shelved.placed (shelved : home.Shelved t u) (orderly : home.Orderly t) :
    t.place (home.bench.shelf u.name) = .ok (.entry home.cache u.name false) := by
  obtain ⟨content, held⟩ := shelved.there
  obtain ⟨name, isFile, file⟩ := shelved.file
  rw [file] at held
  exact Bench.place_of_read orderly.cacheDir (home.naming.isName _ shelved.named)
    shelved.isVersion isFile held

theorem Shelved.fallingBackTo (shelved : home.Shelved t u) (version : Option String) :
    home.Shelved t (u.fallingBackTo version) := by
  cases version with
  | none => exact shelved
  | some version =>
    exact ⟨shelved.named, shelved.isVersion, shelved.file, shelved.there, shelved.matches_⟩

theorem Shelved.left {installed : Installed} (shelved : home.Shelved t installed.update) :
    home.Shelved t installed.left :=
  ⟨shelved.named, shelved.isVersion, shelved.file, shelved.there, shelved.matches_⟩

/-- An install leaves the files in order, and nothing staged if it is completed. -/
theorem Orderly.of_ends (orderly : home.Orderly site.files) (shelved : home.Shelved site.files u)
    (ends : Ends home.device order previous u site reached calls said after status) :
    home.Orderly after.files ∧
      (status = .completed → after.files.Empty (home.cache ++ [u.name])) := by
  cases ends with
  | completed recording telling =>
    rename_i recorded told middle
    have made : middle.files =
        ((home.archive.record (receiptOf site.files u)).runOn site.files).2 := by
      have ran : Hook.recording home.archive (receiptOf site.files u) site = (recorded, middle) :=
        recording
      rw [← files_recording, ran]
    have left : after.files =
        ((Bench.clear (home.bench.shelf u.name)).runOn middle.files).2 := by
      have cleared : Hook.ofJob (Bench.clear (home.bench.shelf u.name)) middle = (told, after) :=
        telling
      rw [show after = (Hook.ofJob (Bench.clear (home.bench.shelf u.name)) middle).2 by
        rw [cleared]]
      rfl
    have between := orderly.of_record shelved
    rw [← made] at between
    have placed : middle.files.place (home.bench.shelf u.name) =
        .ok (.entry home.cache u.name false) := by
      rw [← shelved.placed orderly]
      exact orderly.cacheDir.place_join_eq between.cacheDir (home.naming.isName _ shelved.named)
    obtain ⟨orderly', empty⟩ := between.of_clear shelved.named placed
    rw [← left] at orderly' empty
    exact ⟨orderly', fun _ => empty⟩
  | noTarget unknown => exact ⟨orderly, nofun⟩
  | notRestored target ran | restored target ran =>
    rename_i version _ _
    have left := orderly.of_reinstate shelved.named version
    have went : (home.archive.reinstate u.name version).runOn site.files = _ := ran
    rw [went] at left
    exact ⟨left, nofun⟩
  | aborted => exact ⟨orderly, nofun⟩
  | failed notCompleted notRollback notAborted => exact ⟨orderly, nofun⟩

theorem Orderly.of_installs (orderly : home.Orderly site.files)
    (shelved : home.Shelved site.files u)
    (installs : Installs home.device order previous u site calls said after status) :
    home.Orderly after.files ∧
      (status = .completed → after.files.Empty (home.cache ++ [u.name])) := by
  have clears : home.device.agent.preInstall u site = (.ok .inProgress, site) := rfl
  cases installs with
  | calledOff answered =>
    rw [clears] at answered
    cases answered
  | notCleared answered notGoing notAborted =>
    rw [clears] at answered
    cases answered
    exact absurd rfl notGoing
  | installed cleared did ends =>
    rw [clears] at cleared
    cases cleared
    cases did
    have named (version : Option String) : (u.fallingBackTo version).name = u.name := by
      cases version <;> rfl
    have left := Orderly.of_ends (by exact orderly) (by exact (shelved.fallingBackTo _).left) ends
    rwa [Installed.name_left, named] at left

end Installing

section Dealing

open Course

variable {order : Order} {site after : Site Bench.Memory} {calls : List Call} {said : List Json}
  {stands left : Standing} {e : Event}

/-- The files are in order, and what is staged is on its shelf. -/
structure Kept (home : Household) (stands : Standing) (t : Tree) : Prop where
  orderly : home.Orderly t
  staged : ∀ u, stands.staged = some u → home.Shelved t u

theorem Kept.resumed (kept : home.Kept stands t) : home.Kept stands.resumed t where
  orderly := kept.orderly
  staged u staged := by
    unfold Standing.resumed at staged
    split at staged
    · cases staged
    · exact kept.staged u staged

theorem kept_of_none (orderly : home.Orderly t) (unstaged : stands.staged = none) :
    home.Kept stands t where
  orderly := orderly
  staged u staged := by
    rw [unstaged] at staged
    cases staged

def Leaves (home : Household) (e : Event) (t : Tree) : Prop :=
  ∃ order, e.order? = some order ∧ t.Empty (home.cache ++ [order.release.name])

theorem Kept.of_prepares {status : InstallStatus} (kept : home.Kept stands site.files)
    (fits : home.Fits order)
    (prepares : Prepares home.device stands site order calls said after left status) :
    home.Kept left after.files ∧ status ≠ .completed := by
  cases prepares with
  | again found isFor => exact ⟨kept, by simp⟩
  | staged new stages =>
    obtain ⟨orderly, shelved⟩ := kept.orderly.of_stages fits stages
    refine ⟨⟨orderly, fun v staged => ?_⟩, by simp⟩
    cases staged
    exact shelved _ rfl
  | ended new stages =>
    refine ⟨kept_of_none (kept.orderly.of_stages fits stages).1 rfl, ?_⟩
    obtain ⟨rfl | ⟨rfl, -⟩, -⟩ := stages.closes <;> simp

theorem Kept.of_carriesOut {status : InstallStatus} (kept : home.Kept stands site.files)
    (fits : home.Fits order)
    (carriesOut : CarriesOut home.device stands site order calls said after left status) :
    home.Kept left after.files ∧
      (status = .completed → after.files.Empty (home.cache ++ [order.release.name])) := by
  cases carriesOut with
  | staged found isFor installs =>
    obtain ⟨orderly, empty⟩ := kept.orderly.of_installs (kept.staged _ found) installs
    have release := eq_of_beq isFor
    rw [Update.name, release] at empty
    exact ⟨kept_of_none orderly rfl, empty⟩
  | inline new stages installs =>
    obtain ⟨between, shelved⟩ := kept.orderly.of_stages fits stages
    obtain ⟨orderly, empty⟩ := between.of_installs (shelved _ rfl) installs
    rw [Update.name, stages.release] at empty
    exact ⟨kept_of_none orderly rfl, empty⟩
  | ended new stages =>
    refine ⟨kept_of_none (kept.orderly.of_stages fits stages).1 rfl, ?_⟩
    obtain ⟨rfl | ⟨rfl, -⟩, -⟩ := stages.closes <;> simp

/-- Every event leaves the files in order. -/
theorem Kept.of_deals {status : Option Status} (kept : home.Kept stands site.files)
    (fits : ∀ order, e.order? = some order → home.Fits order)
    (goes : Deals home.device stands site e calls said after left status) :
    home.Kept left after.files ∧
      (status = some (.install .completed) → home.Leaves e after.files) := by
  cases goes with
  | query answered =>
    cases answered
    exact ⟨kept, nofun⟩
  | offered offers => cases offers with
    | again agreed => exact ⟨kept.resumed, nofun⟩
    | asked new answered =>
      cases answered
      refine ⟨kept_of_none kept.orderly ?_, nofun⟩
      unfold Standing.afterOffer
      split <;> rfl
  | prepare prepares =>
    obtain ⟨kept', notCompleted⟩ := kept.resumed.of_prepares (fits _ rfl) prepares
    refine ⟨kept', fun completed => ?_⟩
    cases completed
    exact absurd rfl notCompleted
  | install carriesOut =>
    obtain ⟨kept', empty⟩ := kept.resumed.of_carriesOut (fits _ rfl) carriesOut
    refine ⟨kept', fun completed => ⟨_, rfl, empty ?_⟩⟩
    cases completed
    rfl
  | confirmed | downloading | unhandled => exact ⟨kept, nofun⟩

end Dealing

/-- The stations that the agent comes to over any events and restarts, if nobody else changes what
lies in its directories. -/
inductive Tended (home : Household) : Station Bench.Memory → Prop
  | fresh (own : Bench.Memory) (outbox : Outbox) : Tended home (.fresh own home.base outbox)
  | dealt {s after : Station Bench.Memory} {e : Event} {result : Except Error Unit}
      (earlier : Tended home s) (fits : ∀ order, e.order? = some order → home.Fits order)
      (ran : Course.runOn (Course.deal home.device e) s = (result, after)) : Tended home after
  | paused {s after : Station Bench.Memory} (earlier : Tended home s) (pause : s.Pauses after)
      (keepsDirs : home.base.KeepsDirs after.site.files)
      (same : ∀ at_ ∈ [home.cache, home.backups, home.records], ∀ loc, at_ <+: loc →
        after.site.files.node? loc = s.site.files.node? loc) : Tended home after
  | restarted {s : Station Bench.Memory} (earlier : Tended home s) (own : Bench.Memory)
      (outbox : Outbox) : Tended home (.fresh own s.site.files outbox)

variable {s : Station Bench.Memory}

theorem Tended.reachable (tended : home.Tended s) : Course.Reachable home.device s := by
  induction tended with
  | fresh own outbox => exact .fresh own _ outbox
  | dealt earlier fits ran ih => exact ih.dealt ran
  | paused earlier pause keepsDirs same ih => exact ih.paused pause
  | restarted earlier own outbox ih => exact .fresh own _ outbox

theorem Tended.goesOn {e : Event} (tended : home.Tended s)
    (fits : ∀ order, e.order? = some order → home.Fits order) :
    home.Tended (Course.runOn (Course.deal home.device e) s).2 :=
  tended.dealt fits rfl

/-- There is nothing in the directories at the beginning. -/
theorem orderly_base (home : Household) : home.Orderly home.base where
  keepsDirs := .refl _
  archive := by
    have absent (n : String) : home.base.node? (home.records ++ [n]) = none :=
      home.empty _ (by simp) n []
    have founded : home.archive.Founded home.base home.records home.backups := {
      sound := home.sound
      versionDir := home.versionDir
      backupDir := home.backupDir
      outside := home.backups_records.1
      flat := fun n => by simp [absent n] }
    exact founded.tidy absent
  shelves package named := by
    refine Tree.Empty.neat fun loc inside => ?_
    obtain ⟨more, rfl⟩ := inside
    rw [List.append_assoc, List.singleton_append]
    exact home.vacant.empty package more

theorem Tended.kept (tended : home.Tended s) : home.Kept s.standing s.site.files := by
  induction tended with
  | fresh own outbox => exact kept_of_none home.orderly_base rfl
  | dealt earlier fits ran ih =>
    obtain ⟨_, after, same, _, _, ⟨status, goes⟩, _⟩ :=
      (Course.deal_leads _ earlier.reachable.atRest).exists_ok
    rw [ran, Prod.mk.injEq] at same
    rw [same.2]
    exact (ih.of_deals fits goes).1
  | paused earlier pause keepsDirs same ih =>
    rw [pause.standing]
    refine ⟨ih.orderly.of_same keepsDirs (same _ ?_) (same _ ?_) (same _ ?_), fun u staged =>
      (ih.staged u staged).of_same ih.orderly keepsDirs (same _ ?_)⟩ <;> simp
  | restarted earlier own outbox ih => exact kept_of_none ih.orderly rfl

structure WellKept (home : Household) (s : Station Bench.Memory) : Prop where
  /-- Every version in the history of a package has its file below the directory for its backups,
  with the digest that was recorded. -/
  stored : ∀ package, home.names package → ∀ h,
    home.archive.get? s.site.files package = some h → ∀ version b,
      h.backups.get? version = some b → home.archive.Stored s.site.files package version b
  /-- One file of a package at most lies in the cache. -/
  single : ∀ package, home.names package → ∀ loc other, home.cache ++ [package] <+: loc →
    home.cache ++ [package] <+: other → (s.site.files.content? loc).isSome →
      (s.site.files.content? other).isSome → loc = other
  /-- None does directly after an update that was completed. -/
  cleared : ∀ e, (∀ order, e.order? = some order → home.Fits order) →
    Course.Ensures (Course.answer home.device e) s fun status after =>
      status = some (.install .completed) → home.Leaves e after.site.files

/-- Over any events the archive and the cache are kept as they should be. -/
theorem wellKept_of_tended (tended : home.Tended s) : home.WellKept s := by
  have kept := tended.kept
  refine ⟨kept.orderly.archive.stored, fun package named => ?_, fun e fits => ?_⟩
  · exact (kept.orderly.shelves package named).single
  · apply Course.Ensures.imp (Course.answer_leads e tended.reachable.atRest)
    intro status after led
    obtain ⟨_, _, goes, -⟩ := led
    exact (kept.of_deals fits goes).2

section OneInstall

open Course

def oneFile : Tree :=
  ((((Tree.empty []).put ["cache"] .dir).put ["backups"] .dir).put ["versions"] .dir).put ["new"]
    (.file [1])

def onePackage : Household where
  bench := ⟨.success, none, .consent, ⟨"/cache"⟩, .onDevice⟩
  outside := .nothing
  archive := ⟨⟨"/versions"⟩, ⟨"/backups"⟩⟩
  profile := ⟨"ecu", none, true⟩
  onDevice := rfl
  verifies := rfl
  base := oneFile
  sound := .inr rfl
  cache := ["cache"]
  backups := ["backups"]
  records := ["versions"]
  cacheDir := ⟨eq_ok_of_toOption (by decide +kernel), rfl, rfl⟩
  backupDir := ⟨eq_ok_of_toOption (by decide +kernel), rfl, rfl⟩
  versionDir := ⟨eq_ok_of_toOption (by decide +kernel), rfl, rfl⟩
  empty := by
    intro at_ among name more
    simp only [List.mem_cons, List.not_mem_nil, or_false] at among
    rcases among with rfl | rfl | rfl <;>
    · simp [oneFile, Tree.empty, Tree.put, Tree.node?, List.lookup_cons]
  apart := by decide
  names := (· = "app")
  naming := by
    constructor
    · rintro _ rfl
      constructor <;> decide
    · rintro _ _ rfl rfl
      decide
    · rintro _ _ rfl rfl
      decide

theorem fits_orderNew : onePackage.Fits orderNew where
  named := rfl
  isVersion := by constructor <;> decide
  away := by decide +kernel

/-- An update has been installed. -/
theorem wellKept_of_tended_installed :
    let s := (runOn (deal onePackage.device (.install orderNew))
      (.fresh .fresh onePackage.base .accepting)).2
    (onePackage.Tended s ∧ onePackage.WellKept s) ∧ s.phase = .completed ∧
      (s.site.files.content? ["versions", "app"]).isSome := by
  intro s
  have fresh : onePackage.Tended (.fresh .fresh onePackage.base .accepting) := .fresh _ _
  have fits : ∀ order, (Event.install orderNew).order? = some order → onePackage.Fits order := by
    rintro _ ⟨⟩
    exact fits_orderNew
  have tended := fresh.goesOn fits
  exact ⟨⟨tended, wellKept_of_tended tended⟩, by decide +kernel⟩

end OneInstall

end Household
end OtaAgent
