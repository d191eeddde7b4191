import OtaAgent.Proofs.Course.Checksums

set_option autoImplicit false

namespace OtaAgent

open Files

variable {σ : Type}

/-- On the sites `among`, which they do not leave, the hooks that an update to `release` passes
through succeed: its file is brought to where it was looked for, it is staged, cleared and
installed. -/
structure Device.Succeeds (d : Device σ) (release : Release) (among : Site σ → Prop) : Prop where
  brings {u : Update} {site : Site σ} : u.release = release → among site →
    ∃ after, d.agent.transferFile u site = (.ok ⟨0, none⟩, after) ∧ among after
  stages {u : Update} {site : Site σ} : u.release = release → among site →
    ∃ newPath after, d.agent.prepareInstall u site = (.ok ⟨.ready, newPath⟩, after) ∧ among after
  clears {u : Update} {site : Site σ} : u.release = release → among site →
    ∃ after, d.agent.preInstall u site = (.ok .inProgress, after) ∧ among after
  installs {u : Update} {site : Site σ} : u.release = release → among site →
    ∃ left after, d.agent.install u site = (⟨.ok .completed, left⟩, after)

/-- Installs are recorded as by default, and nothing else is recorded of a package when the agent is
told of its install. -/
structure Device.Remembers (d : Device σ) : Prop where
  setVersion : d.agent.setVersion = Hook.recording
  postInstall : ∀ package site,
    d.archive.current? (d.agent.postInstall package site).2.files package =
      d.archive.current? site.files package

/-- The file has the digest that it is offered with, if there is one. -/
def Offer.Matches (o : Offer) (t : Tree) : Prop := ∀ text, o.digest = some text →
  ∃ content, t.read o.file = .ok content ∧ Digest.parse? text = some (.ofContent content)

namespace Archive

variable {a : Archive} {t next : Tree}

/-- A version that has been recorded is the current one. -/
theorem current?_of_record {r : Receipt} {h : History} (sound : t.Sound)
    (ran : (a.record r).runOn t = (.ok h, next)) : a.current? next r.package = some r.version := by
  obtain ⟨valid, _, _, locked, -, -, -, made, replace⟩ := record_steps ran
  have sorted : h.backups.Sorted := by
    rw [made, get?_of_drafted valid (drafted_of_replace replace)]
    exact (sorted_getD_recorded? ..).insert _ _
  have consistent : h.isConsistent = true := made ▸ isConsistent_install ..
  have said := (runOn_replace (isName_of_canNameFile valid) sorted consistent replace).1
  rw [current?, (inReach_of_record sound ran).get?_eq valid, said, made]
  rfl

end Archive

namespace Course

variable {d : Device σ} {order : Order} {among : Site σ → Prop} {site after : Site σ} {u : Update}
  {calls : List Call} {said : List Json}

/-- The file that is offered for the version of an order is the one that is planned. -/
theorem plan?_of_offer {t : Tree} {offer : Offer} (offered : order.offer? order.target = some offer)
    (plan : plan? d t order = some u) :
    u.isBackup = false ∧ u.file = offer.file ∧ u.received = offer.digest := by
  simp only [plan?, offered, Option.some.injEq] at plan
  subst plan
  exact ⟨rfl, rfl, rfl⟩

/-- The version of `release` is set among `calls`, and is the current one in `next` if the agent
remembers it and gave no error. -/
def BecomesCurrent (d : Device σ) (release : Release) (calls : List Call) (next : Tree) : Prop :=
  ∃ r recorded found, ⟨.setVersion r recorded, found⟩ ∈ calls ∧ r.package = release.name ∧
    r.version = release.version ∧ (d.Remembers → found.Sound → recorded = .ok () →
      d.archive.current? next release.name = some release.version)

theorem BecomesCurrent.mono {release : Release} {more : List Call} {t : Tree}
    (becomes : BecomesCurrent d release calls t) (within : calls ⊆ more) :
    BecomesCurrent d release more t := by
  obtain ⟨r, recorded, found, made, same⟩ := becomes
  exact ⟨r, recorded, found, within made, same⟩

/-- An install is among `calls`, and the update that it leaves becomes the current version, which is
that of the order unless the agent makes another release of it. -/
def Completes (d : Device σ) (order : Order) (calls : List Call) (next : Tree) : Prop :=
  ∃ u installed, CameTo calls u installed ∧
    BecomesCurrent d installed.update.release calls next ∧
    (d.agent.KeepsRelease → BecomesCurrent d order.targetRelease calls next)

theorem Completes.mono {more : List Call} {t : Tree} (completes : Completes d order calls t)
    (within : calls ⊆ more) : Completes d order more t := by
  obtain ⟨u, installed, ⟨found, came⟩, left, ordered⟩ := completes
  exact ⟨u, installed, ⟨found, within came⟩, left.mono within, fun keeps =>
    (ordered keeps).mono within⟩

/-- A version that the agent remembers is the current one still when it has been told of it. -/
theorem current?_of_told {r : Receipt} {told : Answer Unit} {middle : Site σ}
    (remembers : d.Remembers) (sound : site.files.Sound)
    (recording : d.agent.setVersion d.archive r site = (.ok (), middle))
    (telling : d.agent.postInstall r.package middle = (told, after)) :
    d.archive.current? after.files r.package = some r.version := by
  rw [remembers.setVersion, runOn_recording] at recording
  split at recording
  · rename_i files ran
    cases recording
    have kept := remembers.postInstall r.package ⟨site.own, files⟩
    rw [telling] at kept
    exact kept.trans (Archive.current?_of_record sound ran)
  · cases recording

theorem Ends.completes {previous : Option String} {status : InstallStatus}
    (ends : Ends d order previous u site .completed calls said after status) :
    status = .completed ∧ BecomesCurrent d u.release calls after.files := by
  cases ends with
  | completed recording telling =>
    refine ⟨rfl, receiptOf site.files u, _, site.files, List.mem_cons_self .., rfl, rfl, ?_⟩
    rintro remembers sound rfl
    exact current?_of_told (r := receiptOf site.files u) remembers sound recording telling
  | failed notCompleted => exact absurd rfl notCompleted

theorem checkDigest_unless {t : Tree}
    (matches_ : d.profile.verifyChecksum = true → Matches t u) :
    ((checkDigest d u).runOn t).1 = .ok () := by
  by_cases verifies : d.profile.verifyChecksum = true
  · exact checkDigest_of_matches (matches_ verifies)
  · simp only [checkDigest, verifies, Bool.not_false, if_true]
    rfl

section Succeeds

variable (able : d.Succeeds order.targetRelease among)
include able

theorem Brings.succeeds (here : among site) (release : u.release = order.targetRelease)
    {brought : Update} (brings : Brings d site u calls said after brought) :
    among after ∧ brought.release = order.targetRelease ∧ brought.file = u.file ∧
      brought.received = u.received := by
  cases brings with
  | backup => exact ⟨here, release, rfl, rfl⟩
  | transfer notBackup answered success =>
    obtain ⟨next, brought, there⟩ := able.brings release here
    cases answered.symm.trans brought
    exact ⟨there, (release_broughtBy ..).trans release, rfl, rfl⟩

theorem MakesReady.succeeds (here : among site) (release : u.release = order.targetRelease)
    (matches_ : d.profile.verifyChecksum = true → ∀ site, among site → Matches site.files u)
    {result : Readiness} (goes : MakesReady d order site u calls said after result) :
    among after ∧ ∃ ready, result = .ready ready := by
  have passes {middle : Site σ} {brought : Update} {calls : List Call} {said : List Json}
      (brings : Brings d site u calls said middle brought) : among middle ∧
        brought.release = order.targetRelease ∧
        ((checkDigest d brought).runOn middle.files).1 = .ok () := by
    obtain ⟨there, same, file, received⟩ := brings.succeeds able here release
    refine ⟨there, same, checkDigest_unless fun verifies => ?_⟩
    unfold Matches
    rw [file, received]
    exact matches_ verifies middle there
  cases goes with
  | notBrought notBackup answered failed =>
    obtain ⟨next, brought, -⟩ := able.brings release here
    cases answered.symm.trans brought
    exact absurd rfl (failed _ rfl)
  | refused brings mismatch =>
    rw [(passes brings).2.2] at mismatch
    cases mismatch
  | notStaged brings checked answered failed =>
    obtain ⟨there, same, -⟩ := passes brings
    obtain ⟨newPath, next, staged, -⟩ := able.stages same there
    cases answered.symm.trans staged
    exact absurd rfl (failed _ rfl)
  | ready brings checked answered =>
    obtain ⟨there, same, -⟩ := passes brings
    obtain ⟨newPath, next, staged, left⟩ := able.stages same there
    cases answered.symm.trans staged
    exact ⟨left, _, rfl⟩

/-- An order that offers the file of its version gets an update ready. -/
theorem Stages.succeeds (here : among site) {offer : Offer}
    (offered : order.offer? order.target = some offer)
    (matches_ : d.profile.verifyChecksum = true → ∀ site, among site → offer.Matches site.files)
    {result : Readiness} (stages : Stages d order site calls said after result) :
    among after ∧ ∃ ready, result = .ready ready := by
  cases stages with
  | missing unplanned | wanted unplanned => simp [plan?, offered] at unplanned
  | planned plan goes =>
    obtain ⟨-, file, received⟩ := plan?_of_offer offered plan
    refine goes.succeeds able here (release_of_plan plan) fun verifies site there => ?_
    unfold Matches
    rw [file, received]
    exact matches_ verifies site there

/-- What is ready is installed, and a version is set last. -/
theorem Installs.succeeds (here : among site) (release : u.release = order.targetRelease)
    {previous : Option String} {status : InstallStatus}
    (installs : Installs d order previous u site calls said after status) :
    status = .completed ∧ Completes d order calls after.files := by
  obtain ⟨next, going, there⟩ := able.clears release here
  cases installs with
  | calledOff answered => cases answered.symm.trans going
  | notCleared answered notGoing notAborted =>
    cases answered.symm.trans going
    exact absurd rfl notGoing
  | installed cleared did ends =>
    cases cleared.symm.trans going
    obtain ⟨left, later, installed⟩ := able.installs release there
    cases did.symm.trans installed
    obtain ⟨ended, becomes⟩ := ends.completes
    have within {x y : Call} {rest : List Call} : rest ⊆ x :: y :: rest :=
      List.subset_cons_of_subset _ (List.subset_cons_self ..)
    refine ⟨ended, u, _, ⟨next.files, by simp⟩, becomes.mono within, fun keeps => ?_⟩
    have kept := keeps u next
    rw [installed] at kept
    rw [← release, ← kept]
    exact becomes.mono within

/-- An order that is carried out from an open standing is installed, be its update staged or
not. -/
theorem CarriesOut.succeeds (here : among site) {offer : Offer}
    (offered : order.offer? order.target = some offer)
    (matches_ : d.profile.verifyChecksum = true → ∀ site, among site → offer.Matches site.files)
    {t left : Standing} {status : InstallStatus}
    (carriesOut : CarriesOut d t site order calls said after left status) :
    status = .completed ∧ left.phase = .completed ∧ Completes d order calls after.files := by
  cases carriesOut with
  | staged found isFor installs =>
    obtain ⟨rfl, completes⟩ := installs.succeeds able here (by simpa [Update.isFor] using isFor)
    exact ⟨rfl, rfl, completes⟩
  | inline new stages installs =>
    obtain ⟨there, -⟩ := stages.succeeds able here offered matches_
    obtain ⟨rfl, completes⟩ := installs.succeeds able there stages.release
    exact ⟨rfl, rfl, completes.mono (List.subset_append_right ..)⟩
  | ended new stages =>
    obtain ⟨-, ready, ended⟩ := stages.succeeds able here offered matches_
    cases ended

end Succeeds

def offerNew : Offer := ⟨"2", ⟨"/new"⟩, some (Digest.ofContent [1]).text, true⟩

end Course
end OtaAgent
