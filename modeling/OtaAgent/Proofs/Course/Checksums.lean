import OtaAgent.Proofs.Archive.Checksums
import OtaAgent.Proofs.Course.CallOrder
import OtaAgent.Proofs.Course.Histories

set_option autoImplicit false

namespace OtaAgent

open Files

variable {σ : Type}

/-- Whatever can be read in `t` can be read in `next`, and is the same. -/
structure Files.Tree.Preserves (t next : Tree) : Prop where
  sound : t.Sound → next.Sound
  read : ∀ p content, t.read p = .ok content → next.read p = .ok content

theorem Files.Tree.Preserves.refl (t : Tree) : t.Preserves t := ⟨id, fun _ _ => id⟩

theorem Files.Tree.Preserves.trans {t next last : Tree} (first : t.Preserves next)
    (second : next.Preserves last) : t.Preserves last where
  sound := second.sound ∘ first.sound
  read p content held := second.read p content (first.read p content held)

/-- The hook alters no file that is there. -/
def Deed.Preserves {α : Type} (hook : Deed σ α) : Prop :=
  ∀ site : Site σ, site.files.Preserves (hook site).2.files

theorem Deed.Preserves.of_did {α : Type} {hook : Deed σ α} {site after : Site σ} {result : α}
    (preserves : Deed.Preserves hook) (did : hook site = (result, after)) :
    site.files.Preserves after.files := by
  have kept := preserves site
  rwa [did] at kept

/-- The hooks alter no file that is there, except that installs are recorded as by default. -/
structure Device.Preserves (d : Device σ) : Prop where
  confirmDownload : ∀ release, Deed.Preserves (d.agent.confirmDownload release)
  transferFile : ∀ u, Deed.Preserves (d.agent.transferFile u)
  prepareInstall : ∀ u, Deed.Preserves (d.agent.prepareInstall u)
  preInstall : ∀ u, Deed.Preserves (d.agent.preInstall u)
  install : ∀ u, Deed.Preserves (d.agent.install u)
  setVersion : d.agent.setVersion = Hook.recording
  postInstall : ∀ package, Deed.Preserves (d.agent.postInstall package)
  getVersion : ∀ package, Deed.Preserves (d.agent.getVersion d.archive package)

/-- Digests are checked, and a file that is put in the place of one that was sent with a digest
holds the same, be it when the update is staged or while it is installed. -/
structure Device.Faithful (d : Device σ) : Prop where
  verifies : d.profile.verifyChecksum = true
  stages : ∀ u site p after content,
    d.agent.prepareInstall u site = (.ok ⟨.ready, some p⟩, after) → u.received.isSome →
    site.files.read u.file = .ok content → after.files.read p = .ok content
  installs : ∀ u site installed after text,
    d.agent.install u site = (installed, after) → installed.update.received = some text →
    u.received = some text ∧ ∀ content, site.files.read u.file = .ok content →
      after.files.read installed.update.file = .ok content

namespace Course

/-- The digest that the file of `u` was sent with, if there is one, is that of the file. -/
def Matches (t : Tree) (u : Update) : Prop := ∀ text, u.received = some text →
  ∃ content, t.read u.file = .ok content ∧ Digest.parse? text = some (.ofContent content)

variable {d : Device σ} {order : Order} {t : Tree} {u brought : Update} {site middle after : Site σ}
  {calls : List Call} {said : List Json}

theorem Matches.of_preserves {next : Tree} (matches_ : Matches t u) (preserves : t.Preserves next) :
    Matches next u := by
  intro text received
  obtain ⟨content, held, parsed⟩ := matches_ text received
  exact ⟨content, preserves.read _ _ held, parsed⟩

/-- A digest that is that of the file passes the check. -/
theorem checkDigest_of_matches (matches_ : Matches t u) :
    ((checkDigest d u).runOn t).1 = .ok () := by
  unfold checkDigest
  by_cases verifies : d.profile.verifyChecksum = true
  · cases received : u.received with
    | none => simp [verifies]
    | some text =>
      obtain ⟨content, held, parsed⟩ := matches_ text received
      have found := Job.runOn_fileDigest held
      simp only [verifies, Bool.not_true, Bool.false_eq_true, if_false, parsed]
      rw [Job.runOn_bind]
      split
      · rename_i digest next ran
        rw [ran] at found
        obtain rfl : digest = _ := Except.ok.inj found
        simp
      · rename_i e next ran
        rw [ran] at found
        cases found
  · simp [verifies]

section Stages

theorem Brings.preserves (preserves : d.Preserves)
    (brings : Brings d site u calls said after brought) : site.files.Preserves after.files := by
  cases brings with
  | backup isBackup => exact .refl _
  | transfer notBackup answered success => exact (preserves.transferFile u).of_did answered

theorem MakesReady.preserves {result : Readiness} (preserves : d.Preserves)
    (goes : MakesReady d order site u calls said after result) :
    site.files.Preserves after.files := by
  cases goes with
  | notBrought notBackup answered failed => exact (preserves.transferFile u).of_did answered
  | refused brings mismatch => exact brings.preserves preserves
  | notStaged brings checked answered failed | ready brings checked answered =>
    exact (brings.preserves preserves).trans ((preserves.prepareInstall _).of_did answered)

theorem Stages.preserves {result : Readiness} (preserves : d.Preserves)
    (stages : Stages d order site calls said after result) : site.files.Preserves after.files := by
  cases stages with
  | missing | wanted => exact .refl _
  | planned plan goes => exact goes.preserves preserves

/-- What is staged is the file that its digest was sent for. -/
theorem Stages.matches_ready (preserves : d.Preserves) (faithful : d.Faithful)
    (stages : Stages d order site calls said after (.ready u)) : Matches after.files u := by
  cases stages with
  | planned plan goes => cases goes with
    | ready brings checked answered =>
      rename_i planned middle brought newPath
      intro text received
      have sent : brought.received = some text := by
        cases newPath <;> exact received
      obtain ⟨content, held, parsed⟩ := digest_of_checkDigest faithful.verifies checked sent
      refine ⟨content, ?_, parsed⟩
      cases newPath with
      | none => exact ((preserves.prepareInstall _).of_did answered).read _ _ held
      | some p => exact faithful.stages _ _ _ _ _ answered (by simp [sent]) held

end Stages

section Installs

variable {previous : Option String} {status reached : InstallStatus}

/-- What an install leaves with a digest has the file that the digest was sent for. -/
theorem matches_left {installed : Installed} (faithful : d.Faithful)
    (did : d.agent.install u site = (installed, after)) (matches_ : Matches site.files u) :
    Matches after.files installed.left := by
  intro text received
  obtain ⟨sent, same⟩ := faithful.installs u site installed after text did received
  obtain ⟨content, held, parsed⟩ := matches_ text sent
  exact ⟨content, same content held, parsed⟩

/-- What an install leaves to be recorded has the digest of its file. -/
theorem digest?_receiptOf (matches_ : Matches t u) {content : Bytes}
    (held : t.read u.file = .ok content) : (receiptOf t u).digest? = some (.ofContent content) := by
  refine Receipt.digest?_eq ?_ ?_
  · intro text received
    obtain ⟨found, there, parsed⟩ := matches_ text received
    rw [held, Except.ok.injEq] at there
    rw [parsed, there]
  · intro _
    rw [receiptOf, Job.runOn_fileDigest held]
    rfl

/-- The version that `r` speaks of was recorded, when the files were as in `found`. -/
def Recorded (calls : List Call) (r : Receipt) (found : Tree) : Prop :=
  ⟨.setVersion r (.ok ()), found⟩ ∈ calls

/-- What becomes of the version that `r` speaks of: what was recorded is there, and its digest is
that of its file if `trusted`. -/
def Archives (d : Device σ) (t found : Tree) (r : Receipt) (trusted : Prop) : Prop :=
  ∃ content, found.read r.file = .ok content ∧ d.archive.Holds t r content ∧
    (trusted → r.digest? = some (.ofContent content))

theorem Ends.archives (preserves : d.Preserves) (sound : site.files.Sound)
    (ends : Ends d order previous u site reached calls said after status) {r : Receipt}
    {found : Tree} (recorded : Recorded calls r found) (canKeep : d.archive.CanKeep found r) :
    Archives d after.files found r (Matches site.files u) := by
  cases ends with
  | completed recording telling =>
    rename_i answer told middle
    obtain ⟨rfl, rfl, rfl⟩ : r = receiptOf site.files u ∧ answer = .ok () ∧ found = site.files := by
      rcases List.mem_cons.mp recorded with first | second
      · cases first
        exact ⟨rfl, rfl, rfl⟩
      · cases List.mem_singleton.mp second
    rw [preserves.setVersion, runOn_recording] at recording
    obtain ⟨content, held⟩ := canKeep.there
    have told := (preserves.postInstall _).of_did telling
    cases ran : (d.archive.record (receiptOf site.files u)).runOn site.files with
    | mk result files =>
      rw [ran] at recording
      cases result with
      | ok h =>
        cases recording
        exact ⟨content, held, (Archive.holds_of_record sound canKeep held ran).of_read told.read,
          fun matches_ => digest?_receiptOf matches_ held⟩
      | error e => cases recording
  | noTarget | notRestored | restored | aborted | failed => cases recorded

theorem Ends.sound (preserves : d.Preserves) (sound : site.files.Sound)
    (ends : Ends d order previous u site reached calls said after status) : after.files.Sound := by
  cases ends with
  | completed recording telling =>
    rename_i answer told middle
    refine ((preserves.postInstall _).of_did telling).sound ?_
    rw [preserves.setVersion, runOn_recording] at recording
    cases ran : (d.archive.record (receiptOf site.files u)).runOn site.files with
    | mk result files =>
      have made := sound.of_keepsDirs ((Archive.builds_record _).keepsDirs sound ran)
      rw [ran] at recording
      cases result <;> cases recording <;> exact made
  | notRestored target ran | restored target ran =>
    exact sound.of_keepsDirs ((Archive.builds_reinstate _ _).keepsDirs sound ran)
  | noTarget | aborted | failed => exact sound

theorem Installs.sound (preserves : d.Preserves) (sound : site.files.Sound)
    (installs : Installs d order previous u site calls said after status) :
    after.files.Sound := by
  cases installs with
  | calledOff answered | notCleared answered =>
    exact ((preserves.preInstall u).of_did answered).sound sound
  | installed cleared did ends =>
    have until_ := ((preserves.preInstall u).of_did cleared).trans
      ((preserves.install u).of_did did)
    exact ends.sound preserves (until_.sound sound)

theorem Archives.imp {found next : Tree} {r : Receipt} {trusted wider : Prop}
    (archives : Archives d next found r trusted) (imp : wider → trusted) :
    Archives d next found r wider := by
  obtain ⟨content, held, holds, digest⟩ := archives
  exact ⟨content, held, holds, digest ∘ imp⟩

theorem Installs.archives (preserves : d.Preserves) (sound : site.files.Sound)
    (installs : Installs d order previous u site calls said after status) {r : Receipt}
    {found : Tree} (recorded : Recorded calls r found) (canKeep : d.archive.CanKeep found r) :
    Archives d after.files found r (d.Faithful ∧ Matches site.files u) := by
  cases installs with
  | calledOff | notCleared => simp [Recorded] at recorded
  | installed cleared did ends =>
    have checks := (preserves.preInstall u).of_did cleared
    have until_ := checks.trans ((preserves.install u).of_did did)
    have later := ends.archives preserves (until_.sound sound) (by simpa [Recorded] using recorded)
      canKeep
    exact later.imp fun ⟨faithful, matches_⟩ =>
      matches_left faithful did (matches_.of_preserves checks)

end Installs

/-- What is staged on a device that can be trusted is the file that its digest was sent for. -/
structure Intact (d : Device σ) (t : Standing) (files : Tree) : Prop where
  sound : files.Sound
  staged : d.Faithful → ∀ u, t.staged = some u → Matches files u

section Dealing

variable {t left : Standing} {status : InstallStatus} {files next : Tree}

theorem intact_of_none (sound : files.Sound) (unstaged : t.staged = none) : Intact d t files where
  sound := sound
  staged _ u staged := by
    rw [unstaged] at staged
    cases staged

theorem Intact.of_preserves (intact : Intact d t files) (preserves : files.Preserves next) :
    Intact d t next where
  sound := preserves.sound intact.sound
  staged faithful u staged := (intact.staged faithful u staged).of_preserves preserves

theorem Intact.resumed (intact : Intact d t files) : Intact d t.resumed files := by
  unfold Standing.resumed
  split
  · exact intact_of_none intact.sound rfl
  · exact intact

theorem CarriesOut.intact (preserves : d.Preserves) (sound : site.files.Sound)
    (carriesOut : CarriesOut d t site order calls said after left status) :
    Intact d left after.files := by
  cases carriesOut with
  | staged found isFor installs => exact intact_of_none (installs.sound preserves sound) rfl
  | inline new stages installs =>
    exact intact_of_none (installs.sound preserves ((stages.preserves preserves).sound sound)) rfl
  | ended new stages => exact intact_of_none ((stages.preserves preserves).sound sound) rfl

/-- Every event leaves what is staged the file that its digest was sent for. -/
theorem Deals.intact {e : Event} {status : Option Status} (preserves : d.Preserves)
    (intact : Intact d t site.files) (goes : Deals d t site e calls said after left status) :
    Intact d left after.files := by
  cases goes with
  | query answered => exact intact.of_preserves ((preserves.getVersion _).of_did answered)
  | offered offers => cases offers with
    | again agreed => exact intact.resumed
    | asked new answered =>
      have asked := (preserves.confirmDownload _).of_did answered
      refine intact_of_none (asked.sound intact.sound) ?_
      unfold Standing.afterOffer
      split <;> rfl
  | prepare prepares => cases prepares with
    | again found isFor => exact intact.resumed
    | staged new stages =>
      refine ⟨(stages.preserves preserves).sound intact.sound, fun faithful u staged => ?_⟩
      cases staged
      exact stages.matches_ready preserves faithful
    | ended new stages =>
      exact intact_of_none ((stages.preserves preserves).sound intact.sound) rfl
  | install carriesOut => exact carriesOut.intact preserves intact.sound
  | confirmed | downloading | unhandled => exact intact

theorem not_recorded_of_stages {result : Readiness} {r : Receipt} {found : Tree}
    (stages : Stages d order site calls said after result) : ¬ Recorded calls r found := by
  cases stages with
  | missing | wanted => simp [Recorded]
  | planned plan goes => cases goes with
    | notBrought => simp [Recorded]
    | refused brings mismatch => cases brings <;> simp [Recorded]
    | notStaged brings checked answered failed => cases brings <;> simp [Recorded]
    | ready brings checked answered => cases brings <;> simp [Recorded]

theorem CarriesOut.archives (preserves : d.Preserves) (intact : Intact d t site.files)
    (carriesOut : CarriesOut d t site order calls said after left status) {r : Receipt}
    {found : Tree} (recorded : Recorded calls r found) (canKeep : d.archive.CanKeep found r) :
    Archives d after.files found r d.Faithful := by
  cases carriesOut with
  | staged present isFor installs =>
    exact (installs.archives preserves intact.sound recorded canKeep).imp fun faithful =>
      ⟨faithful, intact.staged faithful _ present⟩
  | inline new stages installs =>
    have later := (List.mem_append.mp recorded).resolve_left (not_recorded_of_stages stages)
    have sound := (stages.preserves preserves).sound intact.sound
    exact (installs.archives preserves sound later canKeep).imp fun faithful =>
      ⟨faithful, stages.matches_ready preserves faithful⟩
  | ended new stages => exact absurd recorded (not_recorded_of_stages stages)

theorem Deals.archives {e : Event} {status : Option Status} (preserves : d.Preserves)
    (intact : Intact d t site.files) (goes : Deals d t site e calls said after left status)
    {r : Receipt} {found : Tree} (recorded : Recorded calls r found)
    (canKeep : d.archive.CanKeep found r) : Archives d after.files found r d.Faithful := by
  cases goes with
  | query | confirmed | downloading | unhandled => simp [Recorded] at recorded
  | offered offers => cases offers <;> simp [Recorded] at recorded
  | prepare prepares => cases prepares with
    | again found isFor => simp [Recorded] at recorded
    | staged new stages | ended new stages =>
      exact absurd recorded (not_recorded_of_stages stages)
  | install carriesOut => exact carriesOut.archives preserves intact.resumed recorded canKeep

end Dealing

/-- The stations that the course of `d` can come to if nothing alters the files between two events
that are there. -/
inductive Undisturbed (d : Device σ) : Station σ → Prop
  | fresh (own : σ) (files : Tree) (outbox : Outbox) (sound : files.Sound) :
      Undisturbed d (.fresh own files outbox)
  | dealt {s after : Station σ} {e : Event} {result : Except Error Unit}
      (earlier : Undisturbed d s) (ran : runOn (deal d e) s = (result, after)) :
      Undisturbed d after
  | paused {s after : Station σ} (earlier : Undisturbed d s) (pause : s.Pauses after)
      (kept : s.site.files.Preserves after.site.files) : Undisturbed d after

variable {s : Station σ}

theorem Undisturbed.reachable (undisturbed : Undisturbed d s) : Reachable d s := by
  induction undisturbed with
  | fresh own files outbox sound => exact .fresh own files outbox
  | dealt earlier ran ih => exact ih.dealt ran
  | paused earlier pause kept ih => exact ih.paused pause

theorem Undisturbed.intact (undisturbed : Undisturbed d s) (preserves : d.Preserves) :
    Intact d s.standing s.site.files := by
  induction undisturbed with
  | fresh own files outbox sound => exact intact_of_none sound rfl
  | dealt earlier ran ih =>
    obtain ⟨_, after, same, _, _, ⟨status, goes⟩, _⟩ :=
      (deal_leads _ earlier.reachable.atRest).exists_ok
    rw [ran, Prod.mk.injEq] at same
    rw [same.2]
    exact goes.intact preserves ih
  | paused earlier pause kept ih =>
    rw [pause.standing]
    exact ih.of_preserves kept

/-- What is recorded while an event is dealt with is there afterwards. -/
theorem deal_archives (preserves : d.Preserves) (undisturbed : Undisturbed d s) (e : Event) :
    Ensures (deal d e) s fun _ after => ∃ calls, after.calls = s.calls ++ calls ∧
      ∀ r found, Recorded calls r found → d.archive.CanKeep found r →
        Archives d after.site.files found r d.Faithful := by
  apply Ensures.imp (deal_leads e undisturbed.reachable.atRest)
  intro _ after led
  obtain ⟨calls, said, ⟨status, goes⟩, made, -⟩ := led
  exact ⟨calls, made, fun r found recorded canKeep =>
    goes.archives preserves (undisturbed.intact preserves) recorded canKeep⟩

/-- An order for a rollback to a version whose backup has its own digest passes the check. -/
theorem exists_plan_of_sealed {version : String}
    (sealed_ : d.archive.Sealed t order.release.name version)
    (rollback : order.rollbackVersion = some version) (unoffered : order.offer? version = none) :
    ∃ u, plan? d t order = some u ∧ u.isBackup = true ∧
      ((checkDigest d u).runOn t).1 = .ok () := by
  obtain ⟨backup, content, kept, held, parsed⟩ := sealed_
  have target : order.target = version := by
    rw [Order.target, rollback]
    rfl
  refine ⟨_, by rw [plan?, target, unoffered]; simp only [rollback, kept]; rfl, rfl, ?_⟩
  apply checkDigest_of_matches
  intro text received
  refine ⟨content, held, ?_⟩
  have known : (if backup.digest = "" then none else some backup.digest) = some text := received
  split at known
  · cases known
  · cases known
    exact parsed

section OneInstall

/-- The call recorded version `2` of `app`, with this digest and the content of this file. -/
def records (received : Option String) (file : Path) (content : Bytes) (call : Call) : Bool :=
  match call.hook with
  | .setVersion r (.ok _) => r.package == "app" && r.version == "2" && r.received == received &&
    r.file == file && (call.files.read file).toOption == some content && call.files.cwd == []
  | _ => false

def completing : Device Unit := ⟨.minimal, ⟨⟨"/v"⟩, ⟨"/b"⟩⟩, ⟨"ecu", none, true⟩⟩

/-- One whose agent puts another file in the place of each one that it stages. -/
def relocating : Device Unit :=
  { completing with agent := { Agent.minimal with
      prepareInstall := fun _ => .answer ⟨.ready, some ⟨"/other"⟩⟩ } }

def twoFiles : Station Unit :=
  .fresh () (((Tree.empty []).put ["new"] (.file [1])).put ["other"] (.file [])) .accepting

def orderNew : Order where
  release := ⟨"app", "2"⟩
  handler := "ecu"
  offers := [⟨"2", ⟨"/new"⟩, some (Digest.ofContent [1]).text, true⟩]
  rollbackVersion := none
  rollbackVersions := []

theorem preserves_completing : completing.Preserves where
  confirmDownload _ _ := .refl _
  transferFile _ _ := .refl _
  prepareInstall _ _ := .refl _
  preInstall _ _ := .refl _
  install _ _ := .refl _
  setVersion := rfl
  postInstall _ _ := .refl _
  getVersion _ _ := .refl _

theorem preserves_relocating : relocating.Preserves :=
  { preserves_completing with prepareInstall := fun _ _ => .refl _ }

theorem faithful_completing : completing.Faithful where
  verifies := rfl
  stages u site p after content answered := by
    have stays : completing.agent.prepareInstall u site = (.ok ⟨.ready, none⟩, site) := rfl
    rw [stays] at answered
    simp at answered
  installs u site installed after text did received := by
    cases did
    exact ⟨received, fun _ held => held⟩

theorem undisturbed_twoFiles (d : Device Unit) : Undisturbed d twoFiles :=
  .fresh _ _ _ (.inr rfl)

theorem exists_recorded {d : Device Unit} {received : Option String}
    {file : Path} {content : Bytes} (archive : d.archive = ⟨⟨"/v"⟩, ⟨"/b"⟩⟩)
    (among : file ∈ [⟨"/new"⟩, ⟨"/other"⟩])
    (made : calls.any (records received file content) = true) :
    ∃ r found, Recorded calls r found ∧ d.archive.CanKeep found r ∧ r.package = "app" ∧
      r.version = "2" ∧ r.received = received ∧ found.read r.file = .ok content := by
  obtain ⟨⟨hook, found⟩, there, hit⟩ := List.any_eq_true.mp made
  unfold records at hit
  split at hit
  · rename_i r u same
    dsimp only at same hit
    subst same
    simp only [Bool.and_eq_true, beq_iff_eq] at hit
    obtain ⟨⟨⟨⟨⟨package, version⟩, sent⟩, rfl⟩, held⟩, cwd⟩ := hit
    have read := eq_ok_of_toOption held
    refine ⟨r, found, there, ⟨⟨content, read⟩, ?_, ?_⟩, package, version, sent, read⟩
    · right
      rw [archive, package, version, cwd]
      rcases List.mem_cons.mp among with here | among
      · rw [here]
        decide +kernel
      · rw [List.mem_singleton.mp among]
        decide +kernel
    · unfold Archive.Belongs Archive.Scratch Archive.historyAt Archive.at_
      rw [archive, package, version, cwd]
      rcases List.mem_cons.mp among with here | among
      · rw [here]
        decide +kernel
      · rw [List.mem_singleton.mp among]
        decide +kernel
  · cases hit

end OneInstall

/-- The version that `r` speaks of is kept with the digest of its file, and passes the check when an
order leads back to it. -/
structure KeepsChecked (d : Device σ) (t : Tree) (r : Receipt) : Prop where
  kept : d.archive.Sealed t r.package r.version
  passes : ∀ order : Order, order.release.name = r.package →
    order.rollbackVersion = some r.version → order.offer? r.version = none →
    ∃ u, plan? d t order = some u ∧ u.isBackup = true ∧ ((checkDigest d u).runOn t).1 = .ok ()

/-- Over any events, every version that is recorded is kept with the digest of its file, if digests
are checked, nothing alters files that are there, and what is put in the place of a file that was
checked holds the same. -/
theorem deal_keepsChecked (preserves : d.Preserves) (faithful : d.Faithful)
    (undisturbed : Undisturbed d s) (e : Event) :
    Ensures (deal d e) s fun _ after => ∃ calls, after.calls = s.calls ++ calls ∧
      ∀ r found, Recorded calls r found → d.archive.CanKeep found r →
        KeepsChecked d after.site.files r := by
  apply Ensures.imp (deal_archives preserves undisturbed e)
  intro _ after led
  obtain ⟨calls, made, archives⟩ := led
  refine ⟨calls, made, fun r found recorded canKeep => ?_⟩
  obtain ⟨content, -, holds, digest⟩ := archives r found recorded canKeep
  have kept := holds.sealed_ (digest faithful)
  refine ⟨kept, fun order named rollback unoffered => ?_⟩
  rw [← named] at kept
  exact exists_plan_of_sealed kept rollback unoffered

/-- A file that is sent with its digest is installed. -/
theorem deal_keepsChecked_completing :
    (completing.Preserves ∧ completing.Faithful ∧ Undisturbed completing twoFiles ∧
      Ensures (deal completing (.install orderNew)) twoFiles fun _ after => ∃ calls,
        after.calls = twoFiles.calls ++ calls ∧ ∀ r found, Recorded calls r found →
          completing.archive.CanKeep found r → KeepsChecked completing after.site.files r) ∧
      completing.archive.Sealed
        (runOn (deal completing (.install orderNew)) twoFiles).2.site.files "app" "2" := by
  have made : (runOn (deal completing (.install orderNew)) twoFiles).2.calls.any
      (records (some (Digest.ofContent [1]).text) ⟨"/new"⟩ [1]) = true := by
    decide +kernel
  generalize Event.install orderNew = e at made ⊢
  have undisturbed := undisturbed_twoFiles completing
  have keeps := deal_keepsChecked preserves_completing faithful_completing undisturbed e
  refine ⟨⟨preserves_completing, faithful_completing, undisturbed, keeps⟩, ?_⟩
  obtain ⟨calls, called, kept⟩ := keeps.left
  rw [called] at made
  obtain ⟨r, found, recorded, canKeep, package, version, -⟩ :=
    exists_recorded (d := completing) rfl List.mem_cons_self made
  rw [← package, ← version]
  exact (kept r found recorded canKeep).kept

/-- A file is sent with its digest and another one is staged in its place, which is then kept with
the digest of the first. -/
theorem not_sealed_relocating :
    relocating.Preserves ∧ relocating.profile.verifyChecksum = true ∧
      Undisturbed relocating twoFiles ∧
      (runOn (deal relocating (.install orderNew)) twoFiles).2.phase = .completed ∧
      (∃ r found, Recorded (runOn (deal relocating (.install orderNew)) twoFiles).2.calls r found ∧
        relocating.archive.CanKeep found r ∧ r.package = "app" ∧ r.version = "2") ∧
      ¬ relocating.archive.Sealed
        (runOn (deal relocating (.install orderNew)) twoFiles).2.site.files "app" "2" := by
  obtain ⟨completed, made⟩ :
      (runOn (deal relocating (.install orderNew)) twoFiles).2.phase = .completed ∧
        (runOn (deal relocating (.install orderNew)) twoFiles).2.calls.any
          (records (some (Digest.ofContent [1]).text) ⟨"/other"⟩ []) = true := by
    decide +kernel
  have differ : Digest.Sha256.hash [] ≠ Digest.Sha256.hash [1] := by decide +kernel
  generalize Event.install orderNew = e at completed made ⊢
  have undisturbed := undisturbed_twoFiles relocating
  obtain ⟨calls, called, archives⟩ :=
    (deal_archives preserves_relocating undisturbed e).left
  rw [called] at made
  obtain ⟨r, found, recorded, canKeep, package, version, received, held⟩ :=
    exists_recorded (d := relocating) rfl (List.mem_cons_of_mem _ List.mem_cons_self) made
  obtain ⟨content, there, holds, -⟩ := archives r found recorded canKeep
  obtain rfl : [] = content := Except.ok.inj (held.symm.trans there)
  refine ⟨preserves_relocating, rfl, undisturbed, completed,
    ⟨r, found, ?_, canKeep, package, version⟩, ?_⟩
  · rw [called]
    exact recorded
  · rw [← package, ← version]
    rintro ⟨backup, content, kept, read, parsed⟩
    obtain rfl := Option.some.inj (holds.kept.symm.trans kept)
    obtain rfl : [] = content := Except.ok.inj (holds.read.symm.trans read)
    have digest : r.digest? = some (.ofContent [1]) := by
      rw [Receipt.digest?, received, Option.bind_some, Digest.parse?_text]
    rw [Archive.kept, digest, Option.map_some, Option.getD_some, Digest.parse?_text] at parsed
    exact differ (congrArg Digest.bytes (Option.some.inj parsed)).symm

end Course
end OtaAgent
