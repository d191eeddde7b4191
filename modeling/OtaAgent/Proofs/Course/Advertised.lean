import OtaAgent.Proofs.Advertising
import OtaAgent.Proofs.Archive.Receipts
import OtaAgent.Proofs.Course.Availability
import OtaAgent.Proofs.Course.Completing
import OtaAgent.Proofs.Course.FallingBack

set_option autoImplicit false

namespace OtaAgent

open Files

variable {σ α : Type}

/-- The updates of one order, whose file may be brought by the agent or be a backup. An empty digest
counts the same as none. -/
structure Update.Alike (u v : Update) : Prop where
  release : u.release = v.release
  announced : u.announced = v.announced
  file : u.file = v.file
  received : u.received.getD "" = v.received.getD ""
  prepared : u.prepared = v.prepared
  installed : u.installed = v.installed
  fallback : u.fallback = v.fallback

/-- Both installs are answered the same, and leave updates of one order. -/
structure Installed.Alike (i j : Installed) : Prop where
  answer : i.answer = j.answer
  update : i.update.Alike j.update

/-- From sites that are the same, both come to the same, or to what `agree` takes for the same, and
leave sites that are the same. -/
def Deed.AgreesWith (same : Site σ → Site σ → Prop) (deed other : Deed σ α)
    (agree : α → α → Prop := Eq) : Prop :=
  ∀ site site', same site site' →
    agree (deed site).1 (other site').1 ∧ same (deed site).2 (other site').2

/-- An agent to which it makes no difference whether a file is brought or is a backup. `same` says
between which sites it makes no difference either. -/
structure Device.Impartial (d : Device σ) (same : Site σ → Site σ → Prop) : Prop where
  files {site site' : Site σ} (here : same site site') :
    site.files = site'.files ∧ site.files.Sound
  /-- Files are brought without a change to the device. -/
  transfers (u : Update) {site site' : Site σ} (here : same site site') :
    ∃ after, d.agent.transferFile u site = (.ok ⟨0, none⟩, after) ∧ same after site'
  prepares {u v : Update} (alike : u.Alike v) :
    Deed.AgreesWith same (d.agent.prepareInstall u) (d.agent.prepareInstall v)
  checks {u v : Update} (alike : u.Alike v) :
    Deed.AgreesWith same (d.agent.preInstall u) (d.agent.preInstall v)
  installs {u v : Update} (alike : u.Alike v) :
    Deed.AgreesWith same (d.agent.install u) (d.agent.install v) Installed.Alike
  keepsPackage (u : Update) (site : Site σ) : (d.agent.install u site).1.update.name = u.name
  /-- Installs are recorded as by default, or in a way that makes the same version the current
  one. -/
  records : d.Remembers ∨ ∀ {r r' : Receipt} {site site' : Site σ}, r.Alike r' → same site site' →
    d.archive.current? (d.agent.postInstall r.package
        (d.agent.setVersion d.archive r site).2).2.files r.package =
      d.archive.current? (d.agent.postInstall r.package
        (d.agent.setVersion d.archive r' site').2).2.files r.package

section Alike

variable {u v : Update}

theorem Update.Alike.refl (u : Update) : u.Alike u := ⟨rfl, rfl, rfl, rfl, rfl, rfl, rfl⟩

theorem Update.Alike.relocated (alike : u.Alike v) (path : Option Path) :
    (u.relocated path).Alike (v.relocated path) := by
  cases path with
  | none => exact alike
  | some path => exact { alike with file := rfl }

theorem Installed.Alike.left {i j : Installed} (alike : i.Alike j) : i.left.Alike j.left where
  __ := alike.update
  installed := by
    rw [Installed.left, Installed.left, Installed.status, Installed.status, alike.answer]

theorem Update.Alike.receipts (alike : u.Alike v) (t : Tree) :
    (Course.receiptOf t u).Alike (Course.receiptOf t v) where
  package := congrArg Release.name alike.release
  version := congrArg Release.version alike.release
  received := alike.received
  computed := by rw [Course.receiptOf, Course.receiptOf, alike.file]
  file := alike.file

end Alike

inductive Readiness.Alike : Readiness → Readiness → Prop
  | ready {u v : Update} (alike : u.Alike v) : Alike (.ready u) (.ready v)
  | ended (status : InstallStatus) : Alike (.ended status) (.ended status)

namespace Course

variable {d : Device σ} {same : Site σ → Site σ → Prop} {order : Order} {others : List Offer}
  {u v : Update} {site site' after after' : Site σ} {calls calls' : List Call}
  {said said' : List Json} {previous : Option String} {status : InstallStatus}

theorem current?_told (impartial : d.Impartial same) {r r' : Receipt} (alike : r.Alike r')
    (here : same site site') :
    d.archive.current? (d.agent.postInstall r.package
        (d.agent.setVersion d.archive r site).2).2.files r.package =
      d.archive.current? (d.agent.postInstall r.package
        (d.agent.setVersion d.archive r' site').2).2.files r.package := by
  rcases impartial.records with remembers | records
  · obtain ⟨files, sound⟩ := impartial.files here
    rw [remembers.postInstall, remembers.postInstall, remembers.setVersion, files_recording,
      files_recording, ← files]
    exact Archive.current?_record_alike sound alike
  · exact records alike here

/-- What comes of an install on `t` that asks for a rollback: its status, and the files that are
left. -/
def fallenBack (d : Device σ) (t : Tree) (order : Order) (u : Update) (previous : Option String) :
    InstallStatus × Tree :=
  match fallback? d t order u previous with
  | none => (.failed, t)
  | some version => match (d.archive.reinstate u.name version).runOn t with
    | (.error _, left) => (.failed, left)
    | (.ok _, left) => (.rollback, left)

theorem Ends.eq_fallenBack {result : InstallStatus}
    (ends : Ends d order previous u site .rollback calls said after result) :
    (result, after.files) = fallenBack d site.files order u previous := by
  unfold fallenBack
  cases ends with
  | noTarget unknown => rw [unknown]
  | notRestored target refused => simp only [target, refused]
  | restored target restoring => simp only [target, restoring]
  | failed _ notRollback => exact absurd rfl notRollback

theorem fallenBack_alike (alike : u.Alike v) (t : Tree) :
    fallenBack d t { order with offers := others } v previous =
      fallenBack d t order u previous := by
  have release := alike.release
  simp only [fallenBack, fallback?, Update.name, Update.version, release, alike.fallback]

/-- Installs that come to the same status on sites that are the same end alike. -/
theorem Ends.alike {result result' : InstallStatus} (impartial : d.Impartial same)
    (alike : u.Alike v) (here : same site site')
    (ends : Ends d order previous u site status calls said after result)
    (ends' : Ends d { order with offers := others } previous v site' status calls' said' after'
      result') :
    result = result' ∧
      d.archive.current? after.files u.name = d.archive.current? after'.files u.name := by
  have files := (impartial.files here).1
  -- A rollback looks at nothing of the site but its files, which are the same.
  by_cases asked : status = .rollback
  · subst asked
    have back := ends'.eq_fallenBack
    rw [fallenBack_alike alike, ← files, ← ends.eq_fallenBack, Prod.mk.injEq] at back
    exact ⟨back.1.symm, by rw [back.2]⟩
  · cases ends with
    | noTarget | notRestored | restored => exact absurd rfl asked
    | completed recording telling => cases ends' with
      | failed notCompleted => exact absurd rfl notCompleted
      | completed recording' telling' =>
        have told := current?_told impartial (alike.receipts site.files) here
        change d.archive.current? (d.agent.postInstall u.name _).2.files u.name =
          d.archive.current? (d.agent.postInstall u.name _).2.files u.name at told
        have names : u.name = v.name := congrArg Release.name alike.release
        rw [← files] at recording'
        rw [← names] at telling'
        rw [recording, recording', telling, telling'] at told
        exact ⟨rfl, told⟩
    | aborted => cases ends' with
      | aborted => exact ⟨rfl, by rw [files]⟩
      | failed _ _ notAborted => exact absurd rfl notAborted
    | failed notCompleted _ notAborted => cases ends' with
      | completed => exact absurd rfl notCompleted
      | noTarget | notRestored | restored => exact absurd rfl asked
      | aborted => exact absurd rfl notAborted
      | failed => exact ⟨rfl, by rw [files]⟩

theorem Installs.stopped {answer : Answer InstallStatus} {middle : Site σ} {result : InstallStatus}
    (checked : d.agent.preInstall u site = (answer, middle)) (stops : answer ≠ .ok .inProgress)
    (installs : Installs d order previous u site calls said after result) :
    after = middle ∧ (result = .aborted ∧ answer = .ok .aborted ∨
      result = .failed ∧ answer ≠ .ok .aborted) := by
  cases installs with
  | calledOff answered =>
    cases checked.symm.trans answered
    exact ⟨rfl, .inl ⟨rfl, rfl⟩⟩
  | notCleared answered _ notAborted =>
    cases checked.symm.trans answered
    exact ⟨rfl, .inr ⟨rfl, notAborted⟩⟩
  | installed cleared =>
    cases checked.symm.trans cleared
    exact absurd rfl stops

theorem Installs.ends {middle : Site σ} {result : InstallStatus}
    (cleared : d.agent.preInstall u site = (.ok .inProgress, middle))
    (installs : Installs d order previous u site calls said after result) :
    ∃ installed later calls said, d.agent.install u middle = (installed, later) ∧
      Ends d order previous installed.left later installed.status calls said after result := by
  cases installs with
  | calledOff answered => cases cleared.symm.trans answered
  | notCleared answered notGoing =>
    cases cleared.symm.trans answered
    exact absurd rfl notGoing
  | installed cleared' did ends =>
    cases cleared.symm.trans cleared'
    exact ⟨_, _, _, _, did, ends⟩

/-- The install of an update that was brought and that of the same one from a backup go to the same
end. -/
theorem Installs.alike {result result' : InstallStatus} (impartial : d.Impartial same)
    (alike : u.Alike v) (here : same site site')
    (installs : Installs d order previous u site calls said after result)
    (installs' : Installs d { order with offers := others } previous v site' calls' said' after'
      result') :
    result = result' ∧
      d.archive.current? after.files u.name = d.archive.current? after'.files u.name := by
  obtain ⟨agree, left⟩ := impartial.checks alike site site' here
  cases checked : d.agent.preInstall u site with
  | mk answer middle => cases checked' : d.agent.preInstall v site' with
    | mk answer' middle' =>
      rw [checked, checked'] at agree left
      dsimp only at agree left
      subst agree
      by_cases cleared : answer = .ok .inProgress
      · subst cleared
        obtain ⟨installed, _, _, _, did, ends⟩ := installs.ends checked
        obtain ⟨_, _, _, _, did', ends'⟩ := installs'.ends checked'
        obtain ⟨agree, left⟩ := impartial.installs alike _ _ left
        have kept := impartial.keepsPackage u middle
        rw [did] at agree left kept
        rw [did'] at agree left
        rw [Installed.status, ← agree.answer] at ends'
        have both := Ends.alike impartial agree.left left ends ends'
        rwa [Installed.name_left, kept] at both
      · obtain ⟨rfl, stopped⟩ := installs.stopped checked cleared
        obtain ⟨rfl, stopped'⟩ := installs'.stopped checked' cleared
        refine ⟨?_, by rw [(impartial.files left).1]⟩
        rcases stopped with ⟨rfl, aborted⟩ | ⟨rfl, notAborted⟩
        · exact (stopped'.resolve_right fun other => other.2 aborted).1.symm
        · exact (stopped'.resolve_left fun other => notAborted other.2).1.symm

/-- An update whose file is brought, and the same one with the file of a backup. -/
structure Counterparts (d : Device σ) (u v : Update) : Prop where
  alike : u.Alike v
  brought : u.isBackup = false
  backup : v.isBackup = true
  /-- A digest that is checked is the same for both. -/
  checked : d.profile.verifyChecksum = true → u.received = v.received

theorem checkDigest_alike (alike : u.Alike v)
    (checked : d.profile.verifyChecksum = true → u.received = v.received) :
    checkDigest d u = checkDigest d v := by
  by_cases verifies : d.profile.verifyChecksum = true
  · simp only [checkDigest, checked verifies, alike.file, alike.release]
  · simp [checkDigest, verifies]

/-- What the agent's answer to staging makes of an update. -/
def readinessOf (u : Update) : Answer Prepared → Readiness
  | .ok outcome =>
    if outcome.status = .ready then
      .ready { u.relocated outcome.newPath with prepared := some .ready }
    else .ended .failed
  | .error _ => .ended .failed

/-- What comes of staging the file of `u`, which is on the device. -/
def settled (d : Device σ) (u : Update) (site : Site σ) : Readiness × Site σ :=
  match ((checkDigest d u).runOn site.files).1 with
  | .error _ => (.ended .failed, site)
  | .ok _ => ((readinessOf u (d.agent.prepareInstall u site).1), (d.agent.prepareInstall u site).2)

theorem readinessOf_of_failed {answer : Answer Prepared}
    (failed : ∀ outcome, answer = .ok outcome → outcome.status ≠ .ready) :
    readinessOf u answer = .ended .failed := by
  cases answer with
  | ok outcome => exact if_neg (failed outcome rfl)
  | error e => rfl

theorem readinessOf_alike (alike : u.Alike v) (answer : Answer Prepared) :
    (readinessOf u answer).Alike (readinessOf v answer) := by
  unfold readinessOf
  split
  · split
    · exact .ready { alike.relocated _ with prepared := rfl }
    · exact .ended _
  · exact .ended _

theorem settled_alike (impartial : d.Impartial same) (alike : u.Alike v)
    (checked : d.profile.verifyChecksum = true → u.received = v.received)
    (here : same site site') :
    (settled d u site).1.Alike (settled d v site').1 ∧
      same (settled d u site).2 (settled d v site').2 := by
  obtain ⟨agree, left⟩ := impartial.prepares alike site site' here
  unfold settled
  rw [checkDigest_alike alike checked, (impartial.files here).1]
  cases ((checkDigest d v).runOn site'.files).1 with
  | error e => exact ⟨.ended _, here⟩
  | ok _ =>
    dsimp only
    rw [agree]
    exact ⟨readinessOf_alike alike _, left⟩

/-- Either the file could not be brought, or what comes of it is told by where it was brought to. -/
theorem MakesReady.settled {result : Readiness}
    (brings : u.isBackup = true ∨ ∃ outcome after,
      d.agent.transferFile u site = (.ok outcome, after) ∧ outcome.status = 0)
    (goes : MakesReady d order site u calls said after result) :
    ∃ calls said middle brought, Brings d site u calls said middle brought ∧
      (result, after) = settled d brought middle := by
  unfold Course.settled
  cases goes with
  | notBrought notBackup answered failed =>
    rcases brings with isBackup | ⟨outcome, next, transferred, success⟩
    · exact absurd (isBackup.symm.trans notBackup) nofun
    · rw [answered, Prod.mk.injEq] at transferred
      exact absurd success (failed outcome transferred.1)
  | refused brings mismatch => exact ⟨_, _, _, _, brings, by rw [mismatch]⟩
  | notStaged brings checked answered failed =>
    refine ⟨_, _, _, _, brings, ?_⟩
    rw [checked, answered]
    dsimp only
    rw [readinessOf_of_failed failed]
  | ready brings checked answered =>
    refine ⟨_, _, _, _, brings, ?_⟩
    rw [checked, answered]
    rfl

/-- A file that is brought is where the backup is. -/
theorem Brings.alike {brought kept : Update} (impartial : d.Impartial same)
    (counterparts : Counterparts d u v) (here : same site site')
    (brings : Brings d site u calls said after brought)
    (brings' : Brings d site' v calls' said' after' kept) :
    brought.Alike kept ∧ same after after' ∧
      (d.profile.verifyChecksum = true → brought.received = kept.received) := by
  cases brings' with
  | transfer notBackup => exact absurd (counterparts.backup.symm.trans notBackup) nofun
  | backup => cases brings with
    | backup isBackup => exact absurd (isBackup.symm.trans counterparts.brought) nofun
    | transfer notBackup answered =>
      obtain ⟨middle, transferred, left⟩ := impartial.transfers u here
      rw [answered] at transferred
      cases transferred
      exact ⟨{ counterparts.alike with }, left, counterparts.checked⟩

/-- Where the file of a backup can be staged the one that is brought can be, and the other way
around. -/
theorem MakesReady.alike {result result' : Readiness} (impartial : d.Impartial same)
    (counterparts : Counterparts d u v) (here : same site site')
    (goes : MakesReady d order site u calls said after result)
    (goes' : MakesReady d { order with offers := others } site' v calls' said' after' result') :
    result.Alike result' ∧ same after after' := by
  obtain ⟨middle, transferred, -⟩ := impartial.transfers u here
  obtain ⟨_, _, _, _, brings, settles⟩ := goes.settled (.inr ⟨_, middle, transferred, rfl⟩)
  obtain ⟨_, _, _, _, brings', settles'⟩ := goes'.settled (.inl counterparts.backup)
  obtain ⟨alike, there, checked⟩ := Brings.alike impartial counterparts here brings brings'
  have both := settled_alike impartial alike checked there
  rw [← settles, ← settles'] at both
  exact both

theorem offer?_advertised (t : Tree) (order : Order) (package version : String) :
    { order with offers := advertised d t package }.offer? version =
      (d.archive.backup? t package version).map (·.offer version) := by
  unfold advertised Archive.backup?
  cases d.archive.get? t package with
  | none => rfl
  | some h => exact order.offer?_offers h version

/-- The update of a version that is kept, with its file offered or taken from the backup. -/
theorem plan?_advertised {t : Tree} {version : String}
    (rollback : order.rollbackVersion = some version)
    (digests : d.profile.verifyChecksum = true → ∀ b,
      d.archive.backup? t order.release.name version = some b → b.digest ≠ "") :
    (plan? d t { order with offers := advertised d t order.release.name } = none ∧
        plan? d t { order with offers := [] } = none) ∨
      ∃ u v, plan? d t { order with offers := advertised d t order.release.name } = some u ∧
        plan? d t { order with offers := [] } = some v ∧ Counterparts d u v := by
  have target (offers : List Offer) : { order with offers }.target = version := by
    rw [Order.target, rollback]
    rfl
  have unoffered : { order with offers := [] }.offer? version = none := rfl
  unfold plan?
  rw [target, target, offer?_advertised, unoffered, rollback]
  dsimp only [Option.isSome_some, if_true]
  cases found : d.archive.backup? t order.release.name version with
  | none => exact .inl ⟨rfl, rfl⟩
  | some b =>
    refine .inr ⟨_, _, rfl, rfl, ⟨rfl, rfl, rfl, ?_, rfl, rfl, rfl⟩, rfl, rfl, fun verifies => ?_⟩
    · by_cases empty : b.digest = "" <;> simp [Backup.offer, empty]
    · simp [Backup.offer, digests verifies b found]

section Orders

variable {version : String} {result result' : Readiness} {left left' : Standing}
  {ended ended' : InstallStatus} {t : Standing}

/-- Staging a version that is kept comes to the same with its file offered and from the backup. -/
theorem Stages.alike (impartial : d.Impartial same) (here : same site site)
    (rollback : order.rollbackVersion = some version)
    (digests : d.profile.verifyChecksum = true → ∀ b,
      d.archive.backup? site.files order.release.name version = some b → b.digest ≠ "")
    (stages : Stages d { order with offers := advertised d site.files order.release.name } site
      calls said after result)
    (stages' : Stages d { order with offers := [] } site calls' said' after' result') :
    result.Alike result' ∧ same after after' := by
  have wanted (offers : List Offer) : { order with offers }.rollbackVersion = some version :=
    rollback
  rcases plan?_advertised rollback digests with ⟨unplanned, unplanned'⟩ | ⟨u, v, plan, plan', both⟩
  · obtain ⟨-, -, rfl, rfl⟩ := stages.wants (wanted _) unplanned
    obtain ⟨-, -, rfl, rfl⟩ := stages'.wants (wanted _) unplanned'
    exact ⟨.ended _, here⟩
  · cases stages with
    | missing unplanned | wanted unplanned => cases plan.symm.trans unplanned
    | planned planned goes => cases stages' with
      | missing unplanned | wanted unplanned => cases plan'.symm.trans unplanned
      | planned planned' goes' =>
        obtain rfl := Option.some.inj (plan.symm.trans planned)
        obtain rfl := Option.some.inj (plan'.symm.trans planned')
        exact MakesReady.alike impartial both here goes goes'

theorem CarriesOut.alike (impartial : d.Impartial same) (here : same site site)
    (rollback : order.rollbackVersion = some version)
    (digests : d.profile.verifyChecksum = true → ∀ b,
      d.archive.backup? site.files order.release.name version = some b → b.digest ≠ "")
    (goes : CarriesOut d t site { order with
      offers := advertised d site.files order.release.name } calls said after left ended)
    (goes' : CarriesOut d t site { order with offers := [] } calls' said' after' left' ended') :
    ended = ended' ∧ left = left' ∧ d.archive.current? after.files order.release.name =
      d.archive.current? after'.files order.release.name := by
  have clash {u : Update} (found : t.staged = some u) (isFor : u.isFor order = true)
      (new : t.staged.filter (·.isFor order) = none) : False := by
    simp [found, Option.filter, isFor] at new
  have ends {u v : Update} {middle middle' : Site σ} {more more' : List Call}
      {further further' : List Json} {last last' : Site σ} {ended ended' : InstallStatus}
      (alike : u.Alike v) (release : u.release = order.targetRelease) (there : same middle middle')
      (installs : Installs d
        { order with offers := advertised d site.files order.release.name }
        (d.archive.current? site.files order.release.name) u middle more further last ended)
      (installs' : Installs d { order with offers := [] }
        (d.archive.current? site.files order.release.name) v middle' more' further' last' ended') :
      ended = ended' ∧ d.archive.current? last.files order.release.name =
        d.archive.current? last'.files order.release.name := by
    have both := Installs.alike impartial alike there installs installs'
    rwa [Update.name, release] at both
  cases goes with
  | staged found isFor installs => cases goes' with
    | staged found' _ installs' =>
      obtain rfl := Option.some.inj (found.symm.trans found')
      obtain ⟨rfl, left⟩ := ends (.refl _) (eq_of_beq isFor) here installs installs'
      exact ⟨rfl, rfl, left⟩
    | inline new | ended new => exact (clash found isFor new).elim
  | inline new stages installs => cases goes' with
    | staged found isFor => exact (clash found isFor new).elim
    | ended _ stages' => cases (stages.alike impartial here rollback digests stages').1
    | inline _ stages' installs' =>
      obtain ⟨ready, there⟩ := stages.alike impartial here rollback digests stages'
      cases ready with
      | ready alike =>
        obtain ⟨rfl, left⟩ := ends alike stages.release there installs installs'
        exact ⟨rfl, rfl, left⟩
  | ended new stages => cases goes' with
    | staged found isFor => exact (clash found isFor new).elim
    | inline _ stages' => cases (stages.alike impartial here rollback digests stages').1
    | ended _ stages' =>
      obtain ⟨ended, there⟩ := stages.alike impartial here rollback digests stages'
      cases ended
      exact ⟨rfl, rfl, by rw [(impartial.files there).1]⟩

/-- What is said in reply to a query is said of the files that are left. -/
theorem packageReport_of_onQuery {s next : Station σ} {package : String} {replyId : Option String}
    {reply : Json} (ran : runOn (onQuery d package replyId) s = (.ok (some reply), next)) :
    ∃ installed, reply = packageReport d next.site.files package installed := by
  have replies : Ensures (onQuery d package replyId) s fun said after =>
      ∀ reply, said = some reply →
        ∃ installed, reply = packageReport d after.site.files package installed := by
    unfold onQuery
    rw [ensures_bind, ensures_ask]
    cases (d.agent.getVersion d.archive package s.site).1 with
    | error e => simp [mapError_error]
    | ok installed => simp [mapError_ok]
  exact (ensures_of_runOn ran).mp replies reply rfl

theorem reachable_of_onQuery {s next : Station σ} {package : String} {replyId : Option String}
    {reply : Option Json} (reached : Reachable d s)
    (ran : runOn (onQuery d package replyId) s = (.ok reply, next)) : Reachable d next := by
  have dealt : runOn (deal d (.query "" package replyId)) s = (.ok (), next) := by
    rw [deal, runOn_bind, ran]
    rfl
  exact reached.dealt dealt

/-- An order to install is carried out. -/
theorem runOn_install {s : Station σ} (rest : s.standing.AtRest) (order : Order) :
    ∃ status after calls said,
      runOn (answer d (.install order)) s = (.ok (some (.install status)), after) ∧
      CarriesOut d s.standing.resumed s.site order calls said after.site after.standing status := by
  obtain ⟨_, after, ran, calls, said, goes, -⟩ :=
    (answer_leads (d := d) (.install order) rest).exists_ok
  generalize left : after.standing = standing at goes
  cases goes with
  | install carriesOut => exact ⟨_, after, calls, said, ran, left ▸ carriesOut⟩

/-- Going back to a version that is kept comes to the same whether the order lists what was said in
reply to a query or no file at all. -/
theorem answer_advertised {s next : Station σ} {package version : String}
    {replyId : Option String} {reply : Json} (impartial : d.Impartial same)
    (reached : Reachable d s)
    (queried : runOn (onQuery d package replyId) s = (.ok (some reply), next))
    (here : same next.site next.site) (about : order.release.name = package)
    (rollback : order.rollbackVersion = some version)
    (digests : d.profile.verifyChecksum = true → ∀ b,
      d.archive.backup? next.site.files package version = some b → b.digest ≠ "") :
    ∃ offers status after after',
      Event.parse (order.message (reply.member? "version-list")).compact =
        .ok (.install { order with offers }) ∧
      Event.parse (order.message none).compact = .ok (.install { order with offers := [] }) ∧
      runOn (answer d (.install { order with offers })) next = (.ok status, after) ∧
      runOn (answer d (.install { order with offers := [] })) next = (.ok status, after') ∧
      after.standing = after'.standing ∧
      d.archive.current? after.site.files package =
        d.archive.current? after'.site.files package := by
  subst about
  obtain ⟨installed, rfl⟩ := packageReport_of_onQuery queried
  have rest := (reachable_of_onQuery reached queried).atRest
  obtain ⟨_, after, _, _, ran, carriesOut⟩ := runOn_install (d := d) rest
    { order with offers := advertised d next.site.files order.release.name }
  obtain ⟨_, after', _, _, ran', carriesOut'⟩ := runOn_install (d := d) rest
    { order with offers := [] }
  obtain ⟨rfl, left, current⟩ := carriesOut.alike impartial here rollback digests carriesOut'
  exact ⟨_, _, after, after', Event.parse_advertised d _ order _ installed,
    Event.parse_unlisted order, ran, ran', left, current⟩

end Orders

/-- To the agent that leaves everything to the defaults it makes no difference. -/
theorem impartial_minimal (archive : Archive) (profile : Profile) :
    Device.Impartial ⟨.minimal, archive, profile⟩
      fun site site' => site = site' ∧ site.files.Sound where
  files here := ⟨congrArg Site.files here.1, here.2⟩
  transfers _ site _ here := ⟨site, rfl, here⟩
  prepares _ _ _ here := ⟨rfl, here⟩
  checks _ _ _ here := ⟨rfl, here⟩
  installs alike _ _ here := ⟨⟨rfl, alike⟩, here⟩
  keepsPackage _ _ := rfl
  records := .inl ⟨rfl, fun _ _ => rfl⟩

/-- What is kept of two versions of `app`, with the digest of the second, whose file is empty. -/
def twoChecked : History :=
  (twoVersions.install "2" ⟨true, "47DEQpj8HBSa+/TImW+5JCeuQeRkm5NMpJWZG3hSuFU=", ⟨"/2"⟩⟩).goBackTo
    "1"

def keepingChecked : Tree :=
  keepingTwo.put ["v", "app"] (.file (Text.Utf8.encode twoChecked.text))

theorem get?_keepingChecked :
    Archive.get? ⟨⟨"/v"⟩, ⟨"/b"⟩⟩ keepingChecked "app" = some twoChecked := by
  have placed : keepingChecked.place (Archive.historyPath ⟨⟨"/v"⟩, ⟨"/b"⟩⟩ "app") =
      .ok (.entry ["v"] "app" false) := Files.eq_ok_of_toOption (by decide +kernel)
  have sorted : twoChecked.backups.Sorted := by
    unfold Table.Sorted
    decide +kernel
  exact Archive.get?_of_text (by decide +kernel) placed sorted (by decide +kernel) rfl

/-- The files are checked, and the second version goes by its digest on either way. -/
theorem answer_advertised_checked :
    let d : Device Unit := ⟨.minimal, ⟨⟨"/v"⟩, ⟨"/b"⟩⟩, ⟨"ecu", none, true⟩⟩
    let s : Station Unit := .fresh () keepingChecked .accepting
    let reply := packageReport d keepingChecked "app" (d.archive.current? keepingChecked "app")
    let next := (runOn (onQuery d "app" none) s).2
    let order : Order := ⟨⟨"app", "3"⟩, "ecu", [], some "2", []⟩
    let same := fun site site' : Site Unit => site = site' ∧ site.files.Sound
    (d.Impartial same ∧ Reachable d s ∧
      runOn (onQuery d "app" none) s = (.ok (some reply), next) ∧ same next.site next.site ∧
      (d.profile.verifyChecksum = true → ∀ b,
        d.archive.backup? next.site.files "app" "2" = some b → b.digest ≠ "")) ∧
    ∃ offers status after after',
      Event.parse (order.message (reply.member? "version-list")).compact =
        .ok (.install { order with offers }) ∧
      Event.parse (order.message none).compact = .ok (.install { order with offers := [] }) ∧
      runOn (answer d (.install { order with offers })) next = (.ok status, after) ∧
      runOn (answer d (.install { order with offers := [] })) next = (.ok status, after') ∧
      after.standing = after'.standing ∧
      d.archive.current? after.site.files "app" = d.archive.current? after'.site.files "app" := by
  intro d s reply next order same
  have impartial : d.Impartial same := impartial_minimal ..
  have reached : Reachable d s := .fresh ..
  have queried : runOn (onQuery d "app" none) s = (.ok (some reply), next) := rfl
  have here : same next.site next.site := ⟨rfl, .inr rfl⟩
  have digests : d.profile.verifyChecksum = true → ∀ b,
      d.archive.backup? next.site.files "app" "2" = some b → b.digest ≠ "" := by
    intro _ b found
    have kept : d.archive.backup? next.site.files "app" "2" = twoChecked.backups.get? "2" := by
      change Archive.backup? _ keepingChecked _ _ = _
      rw [Archive.backup?, get?_keepingChecked]
      rfl
    rw [kept] at found
    obtain rfl := Option.some.inj found
    decide
  exact ⟨⟨impartial, reached, queried, here, digests⟩,
    answer_advertised impartial reached queried here rfl rfl digests⟩

/-- An agent that stages no file but a backup. -/
def backupsOnly : Agent Unit where
  prepareInstall := fun u => .answer ⟨if u.isBackup then .ready else .failed, none⟩
  install := Hook.installing (.answer ⟨.completed, none⟩)

/-- A device that has an empty file on record, without its digest. -/
def keepingUnchecked : Tree :=
  (recording ("\x7b\"version\":\"1\",\"version-list\":\x7b" ++
    "\"1\":\x7b\"downloaded\":true,\"sha-256\":\"\",\"file\":\"/1\"\x7d\x7d\x7d")).put
      ["1"] (.file [])

/-- A backup is installed, and the same file is not if it is offered: in the one case since it is
offered with an empty digest, which is checked, in the other one since the agent makes a
difference. -/
theorem failed_of_advertised :
    let order : Order := ⟨⟨"app", "3"⟩, "ecu", [], some "1", []⟩
    let s : Station Unit := .fresh () keepingUnchecked .accepting
    let checking : Device Unit := ⟨.minimal, ⟨⟨"/v"⟩, ⟨"/b"⟩⟩, ⟨"ecu", none, true⟩⟩
    let choosy : Device Unit := ⟨backupsOnly, ⟨⟨"/v"⟩, ⟨"/b"⟩⟩, ⟨"ecu", none, false⟩⟩
    ∀ d ∈ [checking, choosy],
      let reply := packageReport d keepingUnchecked "app"
        (d.archive.current? keepingUnchecked "app")
      let next := (runOn (onQuery d "app" none) s).2
      runOn (onQuery d "app" none) s = (.ok (some reply), next) ∧
      (∀ u site, d.agent.transferFile u site = (.ok ⟨0, none⟩, site)) ∧
      d.archive.backup? next.site.files "app" "1" = some ⟨true, "", ⟨"/1"⟩⟩ ∧
      next.site.files.present ⟨"/1"⟩ = true ∧
      ∃ offers,
        Event.parse (order.message (reply.member? "version-list")).compact =
          .ok (.install { order with offers }) ∧
        Event.parse (order.message none).compact = .ok (.install { order with offers := [] }) ∧
        (runOn (answer d (.install { order with offers })) next).2.phase = .failed ∧
        (runOn (answer d (.install { order with offers := [] })) next).2.phase = .completed := by
  intro order s checking choosy
  have came : ∀ d ∈ [checking, choosy],
      let next := (runOn (onQuery d "app" none) s).2
      let offers := advertised d keepingUnchecked "app"
      d.archive.backup? next.site.files "app" "1" = some ⟨true, "", ⟨"/1"⟩⟩ ∧
      next.site.files.present ⟨"/1"⟩ = true ∧
      (runOn (answer d (.install { order with offers })) next).2.phase = .failed ∧
      (runOn (answer d (.install { order with offers := [] })) next).2.phase = .completed := by
    decide +kernel
  intro d among reply next
  obtain ⟨kept, present, failed, completed⟩ := came d among
  have asked : runOn (onQuery d "app" none) s = (.ok (some reply), next) ∧
      ∀ u site, d.agent.transferFile u site = (.ok ⟨0, none⟩, site) := by
    rcases List.mem_cons.mp among with rfl | among
    · exact ⟨rfl, fun _ _ => rfl⟩
    · obtain rfl := List.mem_singleton.mp among
      exact ⟨rfl, fun _ _ => rfl⟩
  exact ⟨asked.1, asked.2, kept, present, _,
    Event.parse_advertised d keepingUnchecked order "app" _, Event.parse_unlisted order, failed,
    completed⟩

end Course
end OtaAgent
