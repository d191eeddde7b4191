import OtaAgent.Proofs.Archive.Reinstating
import OtaAgent.Proofs.Course.Histories

set_option autoImplicit false

namespace OtaAgent

open Files

variable {σ : Type}

@[simp] theorem Update.fallback_relocated (u : Update) (path : Option Path) :
    (u.relocated path).fallback = u.fallback := by
  cases path <;> rfl

namespace Course

/-- The versions to go back to when an install that has left `u` asks for it, best first: the one
that the agent named, the one that the order named, the rollback versions that are in the history
and the one that was installed before. But for the first they are not the one that failed. -/
def candidates (d : Device σ) (t : Tree) (order : Order) (u : Update) (previous : Option String) :
    List String :=
  let inHistory := order.rollbackVersions.filter fun version =>
    (d.archive.backup? t u.name version).isSome
  u.fallback.toList ++
    (order.rollbackVersion.toList ++ inHistory ++ previous.toList).filter (· != u.version)

/-- What becomes of the files and of the update once an install has left `u` and asked for a
rollback on `t`. -/
structure FallsBack (d : Device σ) (order : Order) (u : Update) (previous : Option String)
    (t next : Tree) (said : List Json) (status : InstallStatus) : Prop where
  /-- The first candidate is the current version again if it can be reinstated. -/
  restored : ∀ version h, (candidates d t order u previous).head? = some version →
    d.archive.Reinstates t u.name version h →
    status = .rollback ∧ d.archive.recorded? next u.name = some (h.goBackTo version) ∧
      (t.Sound → d.archive.get? next u.name = some (h.goBackTo version)) ∧
      ∃ earlier, said = earlier ++ [saying d order .rollback
        { rollbackVersion := some version, rollbackVersions := order.rollbackVersions }]
  /-- Otherwise the update has failed and the history is as it was. -/
  failed : (∀ version h, (candidates d t order u previous).head? = some version →
      ¬ d.archive.Reinstates t u.name version h) →
    status = .failed ∧ d.archive.Unchanged t next u.name ∧
      ∃ earlier, said = earlier ++ [sayingFailed d order next]
  /-- No update is rolled back to the version that failed unless the agent named it. -/
  onlyIfNamed : ∀ h, status = .rollback → d.archive.recorded? next u.name = some h →
    h.current = u.version → u.fallback = some u.version

variable {d : Device σ} {order : Order} {t next : Tree} {site after : Site σ} {u : Update}
  {calls : List Call} {said : List Json} {previous : Option String} {version : String}

theorem find?_toList (o : Option String) (p : String → Bool) : o.toList.find? p = o.filter p := by
  cases o with
  | none => rfl
  | some version => cases hit : p version <;> simp [Option.filter, hit]

/-- The version that an update falls back to is the first candidate. -/
theorem fallback?_eq :
    fallback? d t order u previous = (candidates d t order u previous).head? := by
  have first : u.fallback.toList.head? = u.fallback := by cases u.fallback <;> rfl
  simp only [fallback?, candidates, first, List.head?_append, List.filter_append,
    List.filter_filter, List.head?_filter, find?_toList, Option.or_assoc]

/-- The first candidate is the version that failed only if the agent named it. -/
theorem named_of_head?_candidates
    (first : (candidates d t order u previous).head? = some u.version) :
    u.fallback = some u.version := by
  cases named : u.fallback with
  | some version => simpa [candidates, named] using first
  | none =>
    have among := List.mem_of_head? first
    simp [candidates, named] at among

/-- How an install ends that has asked for a rollback. -/
theorem Ends.fallsBack {status : InstallStatus}
    (ends : Ends d order previous u site .rollback calls said after status) :
    FallsBack d order u previous site.files after.files said status := by
  cases ends with
  | noTarget unknown =>
    rw [fallback?_eq] at unknown
    refine ⟨?_, ?_, ?_⟩
    · intro version h first
      cases unknown.symm.trans first
    · intro _
      exact ⟨rfl, (Archive.Same.refl _).unchanged _, [], rfl⟩
    · intro h rolledBack
      cases rolledBack
  | notRestored chosen refused =>
    rw [fallback?_eq] at chosen
    refine ⟨?_, ?_, ?_⟩
    · intro version h first can
      obtain rfl := Option.some.inj (chosen.symm.trans first)
      obtain ⟨next, granted⟩ := can.runOn
      cases refused.symm.trans granted
    · intro _
      exact ⟨rfl, Archive.unchanged_of_reinstate refused, [], rfl⟩
    · intro h rolledBack
      cases rolledBack
  | restored chosen restoring =>
    rw [fallback?_eq] at chosen
    obtain ⟨h, can, rfl⟩ := Archive.reinstates_of_runOn restoring
    have said := (Archive.runOn_reinstate restoring).2.1
    refine ⟨?_, ?_, ?_⟩
    · intro version other first could
      obtain rfl := Option.some.inj (chosen.symm.trans first)
      obtain rfl := Option.some.inj (can.said.symm.trans could.said)
      exact ⟨rfl, said, fun sound => Archive.get?_of_reinstated sound restoring, [], rfl⟩
    · intro none_
      exact absurd can (none_ _ _ chosen)
    · intro other _ there current
      obtain rfl := Option.some.inj (said.symm.trans there)
      exact named_of_head?_candidates (chosen.trans (congrArg some current))
  | failed _ notRollback => exact absurd rfl notRollback

theorem FallsBack.after_saying (earlier : List Json) {status : InstallStatus}
    (falls : FallsBack d order u previous t next said status) :
    FallsBack d order u previous t next (earlier ++ said) status where
  restored version h first can := by
    obtain ⟨rolledBack, there, read, before, rfl⟩ := falls.restored version h first can
    exact ⟨rolledBack, there, read, earlier ++ before, (List.append_assoc ..).symm⟩
  failed none_ := by
    obtain ⟨failed, unchanged, before, rfl⟩ := falls.failed none_
    exact ⟨failed, unchanged, earlier ++ before, (List.append_assoc ..).symm⟩
  onlyIfNamed := falls.onlyIfNamed

section Unnamed

/-- Nothing but an install names a version to fall back to. -/
theorem fallback_of_plan (plan : plan? d t order = some u) : u.fallback = none := by
  unfold plan? at plan
  split at plan
  · cases plan
    rfl
  · split at plan
    · obtain ⟨backup, -, rfl⟩ := Option.map_eq_some_iff.mp plan
      rfl
    · cases plan

theorem fallback_broughtBy (u : Update) (answer : Answer Transferred) :
    (broughtBy u answer).fallback = u.fallback := by
  cases answer with
  | error e => rfl
  | ok outcome =>
    simp only [broughtBy]
    split
    · exact Update.fallback_relocated u outcome.newPath
    · rfl

theorem Stages.fallback (stages : Stages d order site calls said after (.ready u)) :
    u.fallback = none := by
  cases stages with
  | planned plan goes => cases goes with
    | ready brings checked answered =>
      refine (Update.fallback_relocated _ _).trans ?_
      cases brings with
      | backup => exact fallback_of_plan plan
      | transfer => exact (fallback_broughtBy ..).trans (fallback_of_plan plan)

def Unnamed (t : Standing) : Prop := ∀ u, t.staged = some u → u.fallback = none

theorem Unnamed.resumed {t : Standing} (unnamed : Unnamed t) : Unnamed t.resumed := by
  intro u found
  unfold Standing.resumed at found
  split at found
  · cases found
  · exact unnamed u found

theorem unnamed_of_unstaged {t : Standing} (unstaged : t.staged = none) : Unnamed t := by
  intro u found
  rw [unstaged] at found
  cases found

/-- An event leaves no update staged that names a version. -/
theorem Deals.unnamed {t left : Standing} {e : Event} {status : Option Status}
    (unnamed : Unnamed t) (goes : Deals d t site e calls said after left status) :
    Unnamed left := by
  cases goes with
  | query | confirmed | downloading | unhandled => exact unnamed
  | offered offers => cases offers with
    | again agreed => exact unnamed.resumed
    | @asked answer => exact unnamed_of_unstaged (by cases answer.decision <;> rfl)
  | prepare prepares => cases prepares with
    | again found isFor => exact unnamed.resumed
    | staged new stages =>
      rintro _ ⟨⟩
      exact stages.fallback
    | ended new stages => exact unnamed_of_unstaged rfl
  | install carriesOut => cases carriesOut <;> exact unnamed_of_unstaged rfl

theorem Reachable.unnamed {s : Station σ} (reached : Reachable d s) : Unnamed s.standing := by
  induction reached with
  | fresh own files outbox => exact unnamed_of_unstaged rfl
  | dealt reached ran ih =>
    obtain ⟨_, after, same, _, _, ⟨status, goes⟩, _⟩ := (deal_leads _ reached.atRest).exists_ok
    rw [ran, Prod.mk.injEq] at same
    rw [same.2]
    exact goes.unnamed ih
  | paused reached pause ih =>
    rw [pause.standing]
    exact ih

end Unnamed

/-- What follows if the install of `u`, which names no version to fall back to, asks for a rollback
on `found`: the course goes by the update as the agent has left it, which is of the release that was
ordered unless the agent makes another one of it. -/
def FollowsRequest (d : Device σ) (order : Order) (previous : Option String) (u : Update)
    (installed : Installed) (found next : Tree) (said : List Json) (status : InstallStatus) :
    Prop :=
  ∃ middle later, middle.files = found ∧ d.agent.install u middle = (installed, later) ∧
    u.fallback = none ∧ u.release = order.targetRelease ∧
    (d.agent.KeepsRelease → installed.update.release = order.targetRelease) ∧
    FallsBack d order installed.update previous later.files next said status

theorem FallsBack.of_left {installed : Installed} {status : InstallStatus}
    (falls : FallsBack d order installed.left previous t next said status) :
    FallsBack d order installed.update previous t next said status :=
  ⟨falls.restored, falls.failed, falls.onlyIfNamed⟩

theorem Installs.followsRequest {v : Update} {installed : Installed} {found : Tree}
    {status : InstallStatus} (release : u.release = order.targetRelease)
    (unnamed : u.fallback = none)
    (installs : Installs d order previous u site calls said after status)
    (asked : (⟨.install v installed, found⟩ : Call) ∈ calls)
    (rollback : installed.answer = .ok .rollback) :
    FollowsRequest d order previous v installed found after.files said status := by
  cases installs with
  | calledOff | notCleared => simp at asked
  | @installed other middle later _ more _ _ cleared did ends =>
    simp only [List.mem_cons] at asked
    rcases asked with pre | here | further
    · simp at pre
    · obtain ⟨⟨rfl, rfl⟩, rfl⟩ : (v = u ∧ installed = other) ∧ found = middle.files := by
        simpa using here
      have reached : installed.status = .rollback := by rw [Installed.status, rollback]; rfl
      rw [reached] at ends
      refine ⟨middle, later, rfl, did, unnamed, release, ?_,
        ends.fallsBack.of_left.after_saying [_, _]⟩
      intro keeps
      have kept := keeps v middle
      rw [did] at kept
      exact kept.trans release
    · exact absurd ⟨found, further⟩ (ends.not_cameTo v installed)

theorem FollowsRequest.after_saying (earlier : List Json) {installed : Installed} {found : Tree}
    {status : InstallStatus}
    (follows : FollowsRequest d order previous u installed found next said status) :
    FollowsRequest d order previous u installed found next (earlier ++ said) status := by
  obtain ⟨middle, later, here, did, unnamed, release, kept, falls⟩ := follows
  exact ⟨middle, later, here, did, unnamed, release, kept, falls.after_saying earlier⟩

theorem CarriesOut.followsRequest {standing left : Standing} {v : Update} {installed : Installed}
    {found : Tree} {status : InstallStatus} (unnamed : Unnamed standing)
    (carriesOut : CarriesOut d standing site order calls said after left status)
    (asked : (⟨.install v installed, found⟩ : Call) ∈ calls)
    (rollback : installed.answer = .ok .rollback) :
    left = ⟨status.endPhase, none, none⟩ ∧
      FollowsRequest d order (d.archive.current? site.files order.release.name) v installed found
        after.files said status := by
  cases carriesOut with
  | staged staged isFor installs =>
    exact ⟨rfl, installs.followsRequest (eq_of_beq isFor) (unnamed _ staged) asked rollback⟩
  | inline new stages installs =>
    have later := (List.mem_append.mp asked).resolve_left fun early =>
      stages.not_cameTo v installed ⟨found, early⟩
    have follows := installs.followsRequest stages.release stages.fallback later rollback
    exact ⟨rfl, (follows.after_saying _).after_saying _⟩
  | ended new stages => exact absurd ⟨found, asked⟩ (stages.not_cameTo v installed)

/-- An install that asks for a rollback ends with the first candidate as the current version if that
can be reinstated, and else in a failure that leaves the history alone. -/
theorem answer_fallsBack {s : Station σ} (reached : Reachable d s) (order : Order) :
    Ensures (answer d (.install order)) s fun status after => ∃ calls said,
      after.calls = s.calls ++ calls ∧ after.outbox = s.outbox.sendAll said ∧
      ∀ u installed found, (⟨.install u installed, found⟩ : Call) ∈ calls →
        installed.answer = .ok .rollback →
        ∃ ended, status = some (.install ended) ∧ after.standing = ⟨ended.endPhase, none, none⟩ ∧
          FollowsRequest d order (d.archive.current? s.site.files order.release.name) u installed
            found after.site.files said ended := by
  apply Ensures.imp (answer_leads _ reached.atRest)
  intro status after led
  obtain ⟨calls, said, goes, made, sent⟩ := led
  refine ⟨calls, said, made, sent, ?_⟩
  intro u installed found asked rollback
  generalize left : after.standing = standing at goes
  cases goes with
  | install carriesOut =>
    obtain ⟨rfl, follows⟩ :=
      carriesOut.followsRequest reached.unnamed.resumed asked rollback
    exact ⟨_, rfl, rfl, follows⟩

/-- An agent that asks for a rollback of every install, and leaves open to which version. -/
def rollingBack : Agent Unit where
  install := Hook.installing (.answer ⟨.rollback, none⟩)

def recording (history : String) : Files.Tree :=
  (((Files.Tree.empty []).put ["v"] .dir).put ["v", "app"]
    (.file (Text.Utf8.encode history))).put ["3"] (.file [])

/-- Of two rollback versions the one that failed is passed over. -/
theorem answer_fallsBack_listed :
    let d : Device Unit := ⟨rollingBack, ⟨⟨"/v"⟩, ⟨"/b"⟩⟩, ⟨"ecu", none, false⟩⟩
    let s : Station Unit := .fresh () (recording ("\x7b\"version\":\"1\",\"version-list\":" ++
      "\x7b\"1\":\x7b\"downloaded\":true,\"sha-256\":\"\",\"file\":\"\"\x7d," ++
      "\"2\":\x7b\"downloaded\":true,\"sha-256\":\"\",\"file\":\"\"\x7d\x7d\x7d")) .accepting
    let order : Order := ⟨⟨"app", "3"⟩, "ecu", [⟨"3", ⟨"/3"⟩, none, true⟩], none, ["3", "2"]⟩
    (Reachable d s ∧ Ensures (answer d (.install order)) s fun status after => ∃ calls said,
      after.calls = s.calls ++ calls ∧ after.outbox = s.outbox.sendAll said ∧
      ∀ u installed found, (⟨.install u installed, found⟩ : Call) ∈ calls →
        installed.answer = .ok .rollback →
        ∃ ended, status = some (.install ended) ∧ after.standing = ⟨ended.endPhase, none, none⟩ ∧
          FollowsRequest d order (d.archive.current? s.site.files order.release.name) u installed
            found after.site.files said ended) ∧
      (runOn (answer d (.install order)) s).2.phase = .rolledBack := by
  intro d s order
  have reached : Reachable d s := .fresh ..
  exact ⟨⟨reached, answer_fallsBack reached order⟩, by decide +kernel⟩

theorem draft_of_canWrite {a : Archive} {package : String} (can : a.CanWrite t package) :
    (((t.makeDirs a.versionDir).2.touch (a.lockPath package)).toOption.bind fun locked =>
      (locked.create (a.draftPath package)).toOption).isSome = true := by
  obtain ⟨made, locked, drafted, make, touch, create⟩ := can
  rw [make, touch]
  exact congrArg (fun made => made.toOption.isSome) create

/-- A directory lies where the draft of the history would be made, so that nothing can be written;
and yet the update is rolled back, to the version that is the current one still. -/
theorem rolledBack_unwritten :
    let d : Device Unit := ⟨rollingBack, ⟨⟨"/v"⟩, ⟨"/b"⟩⟩, ⟨"ecu", none, false⟩⟩
    let s : Station Unit := .fresh () ((recording ("\x7b\"version\":\"1\",\"version-list\":" ++
      "\x7b\"1\":\x7b\"downloaded\":true,\"sha-256\":\"\",\"file\":\"\"\x7d\x7d\x7d")).put
        ["v", "app.tmp"] .dir) .accepting
    let order : Order := ⟨⟨"app", "3"⟩, "ecu", [⟨"3", ⟨"/3"⟩, none, true⟩], none, []⟩
    let last := (runOn (answer d (.install order)) s).2
    Reachable d s ∧ last.phase = .rolledBack ∧ ¬ d.archive.CanWrite s.site.files "app" ∧
      ¬ d.archive.CanWrite last.site.files "app" := by
  intro d s order last
  refine ⟨.fresh .., by decide +kernel, fun can => ?_, fun can => ?_⟩
  · exact absurd (draft_of_canWrite can) (by decide +kernel)
  · exact absurd (draft_of_canWrite can) (by decide +kernel)

end Course
end OtaAgent
