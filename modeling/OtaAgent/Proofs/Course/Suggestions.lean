import OtaAgent.Proofs.Archive.Reading
import OtaAgent.Proofs.Course.Reachable

set_option autoImplicit false

namespace OtaAgent.Course

variable {σ : Type} {d : Device σ}

def canGoBack (d : Device σ) (t : Files.Tree) (package version : String) : Bool :=
  match d.archive.backup? t package version with
  | some backup => t.present backup.file
  | none => false

theorem canGoBack_of_backup? {t : Files.Tree} {package version : String} {backup : Backup}
    (kept : d.archive.backup? t package version = some backup) :
    canGoBack d t package version = t.present backup.file := by
  rw [canGoBack, kept]

/-- The first of `versions` that is there and is not the one that was tried. -/
def suggestion? (can : String → Bool) (versions : List String) (tried : String) : Option String :=
  versions.find? fun version => version != tried && can version

section Suggestion

variable {can : String → Bool} {versions : List String} {tried version next : String}

theorem suggestion?_some (suggested : suggestion? can versions tried = some version) :
    version ∈ versions ∧ version ≠ tried ∧ can version = true := by
  have holds := List.find?_some suggested
  rw [Bool.and_eq_true, bne_iff_ne] at holds
  exact ⟨List.mem_of_find?_eq_some suggested, holds⟩

/-- What is suggested after a suggestion has failed is followed by that suggestion again. -/
theorem suggestion?_again (first : suggestion? can versions tried = some version)
    (second : suggestion? can versions version = some next) :
    suggestion? can versions next = some version := by
  have other := (suggestion?_some first).2.1
  have further := (suggestion?_some second).2.1
  induction versions with
  | nil => cases first
  | cons head rest ih =>
    simp only [suggestion?, List.find?_cons] at first second ih ⊢
    cases there : can head with
    | false =>
      simp only [there, Bool.and_false] at first second ⊢
      exact ih first second
    | true =>
      simp only [there, Bool.and_true] at first second ⊢
      by_cases failed : head = tried
      · -- The head failed first: it is the second suggestion, and the first one lies behind it.
        have apart : (head != version) = true := by
          rw [bne_iff_ne, failed]
          exact other.symm
        rw [apart] at second
        obtain rfl : head = next := Option.some.inj second
        simpa [failed] using first
      · have tried_ : (head != tried) = true := bne_iff_ne.mpr failed
        rw [tried_] at first
        obtain rfl : head = version := Option.some.inj first
        rw [bne_iff_ne.mpr further.symm]

theorem suggestion?_eq_none (only : ∀ v ∈ versions, can v = true → v = tried) :
    suggestion? can versions tried = none := by
  rw [suggestion?, List.find?_eq_none]
  intro v among
  rw [Bool.and_eq_true, bne_iff_ne]
  intro hit
  exact hit.1 (only v among hit.2)

theorem suggestion?_ne_none (among : version ∈ versions) (there : can version = true)
    (other : version ≠ tried) : suggestion? can versions tried ≠ none := by
  intro none_
  rw [suggestion?, List.find?_eq_none] at none_
  exact none_ version among (by simp [there, other])

end Suggestion

theorem nextFallback?_eq {order : Order} {t : Files.Tree} {can : String → Bool}
    (steady : ∀ v ∈ order.rollbackVersions, canGoBack d t order.release.name v = can v) :
    nextFallback? d t order = suggestion? can order.rollbackVersions order.target := by
  have same : nextFallback? d t order =
      suggestion? (canGoBack d t order.release.name) order.rollbackVersions order.target := rfl
  rw [same, suggestion?, suggestion?]
  generalize order.rollbackVersions = versions at steady
  induction versions with
  | nil => rfl
  | cons head rest ih =>
    rw [List.find?_cons, List.find?_cons, steady head List.mem_cons_self,
      ih fun v among => steady v (List.mem_cons_of_mem _ among)]

section Failing

variable {order : Order} {site after : Site σ} {calls : List Call} {said : List Json}

theorem MakesReady.said_failed {u : Update}
    (goes : MakesReady d order site u calls said after (.ended .failed)) :
    ∃ earlier, said = earlier ++ [sayingFailed d order after.files] := by
  cases goes with
  | notBrought => exact ⟨[_], rfl⟩
  | refused | notStaged => exact ⟨_, rfl⟩

theorem Stages.said_failed (stages : Stages d order site calls said after (.ended .failed)) :
    ∃ earlier, said = earlier ++ [sayingFailed d order after.files] := by
  cases stages with
  | missing => exact ⟨[], rfl⟩
  | planned plan goes =>
    obtain ⟨earlier, rfl⟩ := goes.said_failed
    exact ⟨_ ++ earlier, (List.append_assoc ..).symm⟩

theorem Ends.said_failed {previous : Option String} {u : Update} {reached : InstallStatus}
    (ends : Ends d order previous u site reached calls said after .failed) :
    said = [sayingFailed d order after.files] := by
  cases ends <;> rfl

theorem Installs.said_failed {previous : Option String} {u : Update}
    (installs : Installs d order previous u site calls said after .failed) :
    ∃ earlier, said = earlier ++ [sayingFailed d order after.files] := by
  cases installs with
  | notCleared => exact ⟨[], rfl⟩
  | installed cleared answered ends =>
    obtain rfl := ends.said_failed
    exact ⟨[_, _], rfl⟩

/-- An order that fails is reported last of all, with what the files suggest then. -/
theorem CarriesOut.said_failed {t left : Standing}
    (carriesOut : CarriesOut d t site order calls said after left .failed) :
    ∃ earlier, said = earlier ++ [sayingFailed d order after.files] := by
  cases carriesOut with
  | staged found isFor installs => exact installs.said_failed
  | inline new stages installs =>
    obtain ⟨earlier, rfl⟩ := installs.said_failed
    exact ⟨_ ++ _ ++ earlier, by simp only [List.append_assoc]; rfl⟩
  | ended new stages =>
    obtain ⟨earlier, rfl⟩ := stages.said_failed
    exact ⟨_ ++ earlier, (List.append_assoc ..).symm⟩

end Failing

/-- What a failed order tried, and what the report of its failure says besides. -/
structure Attempt where
  tried : String
  remarks : Remarks

/-- `order` is carried out from `s` and fails. -/
def FailsOn (d : Device σ) (order : Order) (s after : Station σ) : Prop :=
  runOn (answer d (.install order)) s = (.ok (some (.install .failed)), after)

/-- `order` is about `package`, and may fall back to `versions`. -/
structure Names (order : Order) (package : String) (versions : List String) : Prop where
  package : order.release.name = package
  versions : order.rollbackVersions = versions

/-- Orders for `package` that all fail, the last one first. Each but the first is for the version
that the report of the one before suggested. The versions whose copies are there, as `can` says, are
the same all the time. -/
inductive Chain (d : Device σ) (package : String) (versions : List String) (can : String → Bool)
    (s : Station σ) : List Attempt → Station σ → Prop
  | first {order : Order} {after : Station σ} (names : Names order package versions)
      (fails : FailsOn d order s after)
      (steady : ∀ v ∈ versions, canGoBack d after.site.files package v = can v) :
      Chain d package versions can s [⟨order.target, failureRemarks d after.site.files order⟩] after
  | again {attempt : Attempt} {earlier : List Attempt} {before after : Station σ} {order : Order}
      (chain : Chain d package versions can s (attempt :: earlier) before)
      (names : Names order package versions)
      (suggested : attempt.remarks.rollbackVersion = some order.target)
      (fails : FailsOn d order before after)
      (steady : ∀ v ∈ versions, canGoBack d after.site.files package v = can v) :
      Chain d package versions can s
        (⟨order.target, failureRemarks d after.site.files order⟩ :: attempt :: earlier) after

variable {package : String} {versions : List String} {can : String → Bool} {s last : Station σ}
  {attempt : Attempt} {earlier : List Attempt}

/-- A report suggests a version or says that none is left. Where no list was given, it does
neither. -/
theorem failureRemarks_eq {order : Order} {t : Files.Tree} (names : Names order package versions)
    (steady : ∀ v ∈ versions, canGoBack d t package v = can v) :
    (failureRemarks d t order).rollbackVersion = suggestion? can versions order.target ∧
      (failureRemarks d t order).terminalFailure =
        (!versions.isEmpty && (suggestion? can versions order.target).isNone) := by
  obtain ⟨rfl, rfl⟩ := names
  rw [failureRemarks]
  cases empty : order.rollbackVersions.isEmpty with
  | true =>
    rw [List.isEmpty_iff.mp empty]
    exact ⟨rfl, rfl⟩
  | false =>
    rw [if_neg (by simp), nextFallback?_eq steady]
    exact ⟨rfl, rfl⟩

theorem Chain.remarks (chain : Chain d package versions can s (attempt :: earlier) last) :
    attempt.remarks.rollbackVersion = suggestion? can versions attempt.tried ∧
      attempt.remarks.terminalFailure =
        (!versions.isEmpty && (suggestion? can versions attempt.tried).isNone) := by
  cases chain with
  | first names fails steady => exact failureRemarks_eq names steady
  | again chain names suggested fails steady => exact failureRemarks_eq names steady

/-- Every attempt but the first is one that was suggested. -/
theorem Chain.suggested {before : Attempt}
    (chain : Chain d package versions can s (attempt :: before :: earlier) last) :
    before.remarks.rollbackVersion = some attempt.tried ∧
      ∃ middle, Chain d package versions can s (before :: earlier) middle := by
  cases chain with
  | again chain names suggested fails steady => exact ⟨suggested, _, chain⟩

theorem FailsOn.reachable {order : Order} {after : Station σ} (fails : FailsOn d order s after)
    (reached : Reachable d s) : Reachable d after := by
  have dealt : runOn (deal d (.install order)) s = (.ok (), after) := by
    rw [deal_eq_answer, runOn_bind, fails]
    rfl
  exact reached.dealt dealt

/-- An order that fails is reported last of all. -/
theorem FailsOn.reported {order : Order} {after : Station σ} (fails : FailsOn d order s after)
    (reached : Reachable d s) : ∃ said, after.outbox =
      s.outbox.sendAll (said ++ [sayingFailed d order after.site.files]) := by
  obtain ⟨calls, said, goes, -, sent⟩ :=
    (ensures_of_runOn fails).mp (answer_leads (.install order) reached.atRest)
  cases goes with
  | install carriesOut =>
    obtain ⟨earlier, rfl⟩ := carriesOut.said_failed
    exact ⟨earlier, sent⟩

theorem Chain.reachable {log : List Attempt} (chain : Chain d package versions can s log last)
    (reached : Reachable d s) : Reachable d last := by
  induction chain with
  | first names fails steady => exact fails.reachable reached
  | again chain names suggested fails steady ih => exact fails.reachable ih

/-- The last failure of a chain has been reported. -/
theorem Chain.reported (chain : Chain d package versions can s (attempt :: earlier) last)
    (reached : Reachable d s) : ∃ (outbox : Outbox) (said : List Json) (release : Release),
      release.name = package ∧ last.outbox = outbox.sendAll
        (said ++
          [Report.status d.profile.handler release InstallStatus.failed attempt.remarks]) := by
  cases chain with
  | first names fails steady =>
    obtain ⟨said, sent⟩ := fails.reported reached
    exact ⟨_, said, _, names.package, sent⟩
  | again chain names suggested fails steady =>
    obtain ⟨said, sent⟩ := fails.reported (chain.reachable reached)
    exact ⟨_, said, _, names.package, sent⟩

/-- If at most one version is there, a chain ends with its second failure. -/
theorem Chain.ends (chain : Chain d package versions can s (attempt :: earlier) last)
    (single : ∀ v ∈ versions, ∀ w ∈ versions, can v = true → can w = true → v = w) :
    earlier = [] ∨ (∃ before, earlier = [before]) ∧ attempt.remarks.rollbackVersion = none := by
  have last_ {one two : Attempt} {rest : List Attempt} {after : Station σ}
      (chain : Chain d package versions can s (one :: two :: rest) after) :
      one.remarks.rollbackVersion = none := by
    obtain ⟨suggested, _, before⟩ := chain.suggested
    rw [before.remarks.1] at suggested
    obtain ⟨among, -, there⟩ := suggestion?_some suggested
    rw [chain.remarks.1]
    exact suggestion?_eq_none fun v amongToo thereToo => single v amongToo _ among thereToo there
  cases earlier with
  | nil => exact .inl rfl
  | cons before rest => cases rest with
    | nil => exact .inr ⟨⟨before, rfl⟩, last_ chain⟩
    | cons first rest =>
      obtain ⟨suggested, _, shorter⟩ := chain.suggested
      rw [last_ shorter] at suggested
      cases suggested

/-- If two versions are there, no report of a chain is the last one, and from the third on each
suggests what the one before the previous suggested. -/
theorem Chain.repeats (chain : Chain d package versions can s (attempt :: earlier) last)
    {v w : String} (amongV : v ∈ versions) (amongW : w ∈ versions) (thereV : can v = true)
    (thereW : can w = true) (apart : v ≠ w) :
    attempt.remarks.terminalFailure = false ∧ ∀ one two rest, earlier = one :: two :: rest →
      attempt.remarks.rollbackVersion = two.remarks.rollbackVersion := by
  obtain ⟨suggests, terminal⟩ := chain.remarks
  constructor
  · have goesOn : suggestion? can versions attempt.tried ≠ none := by
      by_cases same : v = attempt.tried
      · exact suggestion?_ne_none amongW thereW (same ▸ apart.symm)
      · exact suggestion?_ne_none amongV thereV same
    rw [terminal, Option.isNone_eq_false_iff.mpr (Option.isSome_iff_ne_none.mpr goesOn),
      Bool.and_false]
  · rintro one two rest rfl
    obtain ⟨second, _, before⟩ := chain.suggested
    obtain ⟨first, _, beginning⟩ := before.suggested
    rw [suggests, first]
    rw [before.remarks.1] at second
    rw [beginning.remarks.1] at first
    exact suggestion?_again first second

section Refusing

variable {order : Order}

def Refuses (d : Device σ) : Prop := ∀ u site, (d.agent.prepareInstall u site).2 = site ∧
  ∀ outcome, (d.agent.prepareInstall u site).1 = .ok outcome → outcome.status ≠ .ready

theorem Refuses.answered (refuses : Refuses d) {u : Update} {site after : Site σ}
    {answer : Answer Prepared} (answered : d.agent.prepareInstall u site = (answer, after)) :
    after = site ∧ ∀ outcome, answer = .ok outcome → outcome.status ≠ .ready := by
  have refused := refuses u site
  rwa [answered] at refused

/-- An order for `rollback`, or for no older version, that comes with no files. -/
def bareOrder (package : String) (versions : List String) (rollback : Option String) : Order where
  release := ⟨package, ""⟩
  handler := ""
  offers := []
  rollbackVersion := rollback
  rollbackVersions := versions

theorem offer?_of_bare (bare : order.offers = []) (version : String) :
    order.offer? version = none := by
  rw [Order.offer?, bare]
  rfl

theorem isBackup_of_plan {t : Files.Tree} {u : Update} (bare : order.offers = [])
    (plan : plan? d t order = some u) : u.isBackup = true := by
  rw [plan?, offer?_of_bare bare] at plan
  dsimp only at plan
  split at plan
  · obtain ⟨backup, -, rfl⟩ := Option.map_eq_some_iff.mp plan
    rfl
  · cases plan

theorem plan?_ne_none {t : Files.Tree} {version : String} (bare : order.offers = [])
    (rollback : order.rollbackVersion = some version)
    (there : canGoBack d t order.release.name version = true) : plan? d t order ≠ none := by
  have target : order.target = version := by
    rw [Order.target, rollback]
    rfl
  unfold canGoBack at there
  split at there
  · rename_i backup found
    simp [plan?, offer?_of_bare bare, rollback, target, found]
  · cases there

/-- Where the agent refuses to stage anything, an order with no files fails and changes nothing. -/
theorem Refuses.stages (refuses : Refuses d) {site after : Site σ} {calls : List Call}
    {said : List Json} {result : Readiness} (bare : order.offers = [])
    (there : ∀ version, order.rollbackVersion = some version →
      canGoBack d site.files order.release.name version = true)
    (stages : Stages d order site calls said after result) :
    result = .ended .failed ∧ after = site := by
  cases stages with
  | missing => exact ⟨rfl, rfl⟩
  | wanted unplanned rollback =>
    exact absurd unplanned (plan?_ne_none bare rollback (there _ rollback))
  | planned plan goes =>
    have isBackup := isBackup_of_plan bare plan
    have brought {site middle : Site σ} {u brought : Update} {calls : List Call}
        {said : List Json} (isBackup : u.isBackup = true)
        (brings : Brings d site u calls said middle brought) : middle = site := by
      cases brings with
      | backup => rfl
      | transfer notBackup => simp [isBackup] at notBackup
    cases goes with
    | notBrought notBackup => simp [isBackup] at notBackup
    | refused brings mismatch => exact ⟨rfl, brought isBackup brings⟩
    | notStaged brings checked answered failed =>
      exact ⟨rfl, (refuses.answered answered).1.trans (brought isBackup brings)⟩
    | ready brings checked answered =>
      exact absurd rfl ((refuses.answered answered).2 _ rfl)

theorem Refuses.carriesOut (refuses : Refuses d) {t left : Standing} {site after : Site σ}
    {calls : List Call} {said : List Json} {status : InstallStatus} (unstaged : t.staged = none)
    (bare : order.offers = [])
    (there : ∀ version, order.rollbackVersion = some version →
      canGoBack d site.files order.release.name version = true)
    (carriesOut : CarriesOut d t site order calls said after left status) :
    status = .failed ∧ after = site ∧ left = ⟨.failed, none, none⟩ := by
  cases carriesOut with
  | staged found => simp [unstaged] at found
  | inline new stages => cases (refuses.stages bare there stages).1
  | ended new stages =>
    obtain ⟨ended, rfl⟩ := refuses.stages bare there stages
    cases ended
    exact ⟨rfl, rfl, rfl⟩

theorem Refuses.failsOn (refuses : Refuses d) (rest : s.standing.AtRest)
    (unstaged : s.standing.resumed.staged = none) (bare : order.offers = [])
    (there : ∀ version, order.rollbackVersion = some version →
      canGoBack d s.site.files order.release.name version = true) :
    ∃ after, FailsOn d order s after ∧ after.site = s.site ∧
      after.standing = ⟨.failed, none, none⟩ := by
  obtain ⟨status, after, ran, calls, said, goes, -⟩ :=
    (answer_leads (d := d) (.install order) rest).exists_ok
  generalize left : after.standing = standing at goes
  generalize sited : after.site = site at goes
  cases goes with
  | install carriesOut =>
    obtain ⟨rfl, rfl, rfl⟩ := refuses.carriesOut unstaged bare there carriesOut
    exact ⟨after, ran, sited, left⟩

/-- Where two versions are there and the agent stages neither, failures follow each other without
end. -/
theorem Refuses.exists_chain (refuses : Refuses d) (reached : Reachable d s)
    (unstaged : s.standing.resumed.staged = none) {v w : String} (amongV : v ∈ versions)
    (amongW : w ∈ versions) (thereV : canGoBack d s.site.files package v = true)
    (thereW : canGoBack d s.site.files package w = true) (apart : v ≠ w) (count : Nat) :
    ∃ attempt earlier last,
      Chain d package versions (canGoBack d s.site.files package) s (attempt :: earlier) last ∧
        earlier.length = count ∧ last.site = s.site ∧ last.standing = ⟨.failed, none, none⟩ := by
  induction count with
  | zero =>
    have bare : (bareOrder package versions none).offers = [] := rfl
    obtain ⟨last, fails, sited, stands⟩ := refuses.failsOn reached.atRest unstaged bare nofun
    exact ⟨_, [], last, .first ⟨rfl, rfl⟩ fails fun _ _ => by rw [sited], rfl, sited, stands⟩
  | succ count ih =>
    obtain ⟨attempt, earlier, before, chain, length, sited, stands⟩ := ih
    obtain ⟨suggests, terminal⟩ := chain.remarks
    have goesOn := (chain.repeats amongV amongW thereV thereW apart).1
    have full : versions.isEmpty = false :=
      List.isEmpty_eq_false_iff.mpr (List.ne_nil_of_mem amongV)
    rw [terminal, full, Bool.not_false, Bool.true_and, Option.isNone_eq_false_iff,
      Option.isSome_iff_exists] at goesOn
    obtain ⟨version, suggested⟩ := goesOn
    have there := (suggestion?_some suggested).2.2
    rw [← sited] at there
    have bare : (bareOrder package versions (some version)).offers = [] := rfl
    obtain ⟨last, fails, same, left⟩ :=
      refuses.failsOn (chain.reachable reached).atRest (by rw [stands]; rfl) bare
        (by rintro _ ⟨⟩; exact there)
    refine ⟨_, attempt :: earlier, last, .again chain ⟨rfl, rfl⟩ ?_ fails ?_, ?_, same.trans sited,
      left⟩
    · rw [suggests, suggested]
      rfl
    · intro v among
      rw [same, sited]
    · rw [List.length_cons, length]

end Refusing

def noStaging : Agent Unit where
  prepareInstall := fun _ => .answer ⟨.failed, none⟩
  install := Hook.installing (.answer ⟨.completed, none⟩)

theorem refuses_noStaging (archive : Archive) (profile : Profile) :
    Refuses ⟨noStaging, archive, profile⟩ :=
  fun _ _ => ⟨rfl, by rintro _ ⟨⟩; nofun⟩

def twoVersions : History where
  current := "1"
  backups := [("1", ⟨true, "", ⟨"/1"⟩⟩), ("2", ⟨true, "", ⟨"/2"⟩⟩)]

/-- The files of these versions, and the history that says so. -/
def keepingTwo : Files.Tree :=
  ((((Files.Tree.empty []).put ["v"] .dir).put ["v", "app"]
    (.file (Text.Utf8.encode twoVersions.text))).put ["1"] (.file [])).put ["2"] (.file [])

theorem get?_keepingTwo : Archive.get? ⟨⟨"/v"⟩, ⟨"/b"⟩⟩ keepingTwo "app" = some twoVersions := by
  have placed : keepingTwo.place (Archive.historyPath ⟨⟨"/v"⟩, ⟨"/b"⟩⟩ "app") =
      .ok (.entry ["v"] "app" false) := Files.eq_ok_of_toOption (by decide +kernel)
  have sorted : twoVersions.backups.Sorted := by
    unfold Table.Sorted
    decide +kernel
  exact Archive.get?_of_text (by decide +kernel) placed sorted (by decide +kernel) rfl

theorem canGoBack_of_kept (profile : Profile) {version : String} {backup : Backup}
    (kept : twoVersions.backups.get? version = some backup)
    (there : keepingTwo.present backup.file = true) :
    canGoBack ⟨noStaging, ⟨⟨"/v"⟩, ⟨"/b"⟩⟩, profile⟩ keepingTwo "app" version = true := by
  refine (canGoBack_of_backup? ?_).trans there
  rw [Archive.backup?, get?_keepingTwo]
  exact kept

theorem canGoBack_keepingTwo (profile : Profile) {version : String}
    (among : version ∈ ["1", "2"]) :
    canGoBack ⟨noStaging, ⟨⟨"/v"⟩, ⟨"/b"⟩⟩, profile⟩ keepingTwo "app" version = true := by
  have first : twoVersions.backups.get? "1" = some ⟨true, "", ⟨"/1"⟩⟩ := by decide +kernel
  have second : twoVersions.backups.get? "2" = some ⟨true, "", ⟨"/2"⟩⟩ := by decide +kernel
  rcases List.mem_cons.mp among with rfl | among
  · exact canGoBack_of_kept profile first (by decide +kernel)
  · obtain rfl := List.mem_singleton.mp among
    exact canGoBack_of_kept profile second (by decide +kernel)

theorem exists_chain_keepingTwo (profile : Profile) (count : Nat) :
    let d : Device Unit := ⟨noStaging, ⟨⟨"/v"⟩, ⟨"/b"⟩⟩, profile⟩
    ∃ attempt earlier last, Chain d "app" ["1", "2"] (canGoBack d keepingTwo "app")
      (.fresh () keepingTwo .accepting) (attempt :: earlier) last ∧ earlier.length = count := by
  intro d
  have first : "1" ∈ ["1", "2"] := by decide
  have second : "2" ∈ ["1", "2"] := by decide
  obtain ⟨attempt, earlier, last, chain, length, -⟩ :=
    (refuses_noStaging _ profile).exists_chain (.fresh () keepingTwo .accepting) rfl first second
      (canGoBack_keepingTwo profile first) (canGoBack_keepingTwo profile second) (by decide) count
  exact ⟨attempt, earlier, last, chain, length⟩

/-- What is suggested after failures that were reported one after the other, each but the first of
the version that was suggested before. -/
structure Suggests (d : Device σ) (package : String) (versions : List String) (can : String → Bool)
    (attempt : Attempt) (earlier : List Attempt) (last : Station σ) : Prop where
  /-- The report of the last failure was the last envelope that was offered. -/
  reported : ∃ (outbox : Outbox) (said : List Json) (release : Release), release.name = package ∧
    last.outbox = outbox.sendAll
      (said ++ [Report.status d.profile.handler release InstallStatus.failed attempt.remarks])
  /-- It suggests a version or says that none is left; where no list was given, it does neither. -/
  terminal : attempt.remarks.terminalFailure =
    (!versions.isEmpty && attempt.remarks.rollbackVersion.isNone)
  /-- If at most one version is there, none is left after the second failure. -/
  ends : (∀ v ∈ versions, ∀ w ∈ versions, can v = true → can w = true → v = w) →
    earlier = [] ∨ (∃ before, earlier = [before]) ∧ attempt.remarks.rollbackVersion = none
  /-- If two versions are there, some version is always left, and the third suggestion is the first
  one again. -/
  repeats : ∀ v ∈ versions, ∀ w ∈ versions, can v = true → can w = true → v ≠ w →
    attempt.remarks.terminalFailure = false ∧ ∀ one two rest, earlier = one :: two :: rest →
      attempt.remarks.rollbackVersion = two.remarks.rollbackVersion

/-- The suggestions end if and only if at most one version of the list is there. -/
theorem suggests_of_chain (reached : Reachable d s)
    (chain : Chain d package versions can s (attempt :: earlier) last) :
    Suggests d package versions can attempt earlier last where
  reported := chain.reported reached
  terminal := by
    obtain ⟨suggests, terminal⟩ := chain.remarks
    rw [terminal, suggests]
  ends := chain.ends
  repeats _ amongV _ amongW thereV thereW apart :=
    chain.repeats amongV amongW thereV thereW apart

/-- Three failures in a row on a device that has the files of two versions. -/
theorem suggests_of_chain_three :
    let d : Device Unit := ⟨noStaging, ⟨⟨"/v"⟩, ⟨"/b"⟩⟩, ⟨"ecu", none, false⟩⟩
    let s : Station Unit := .fresh () keepingTwo .accepting
    let can := canGoBack d keepingTwo "app"
    ∃ attempt earlier last, (Reachable d s ∧
      Chain d "app" ["1", "2"] can s (attempt :: earlier) last) ∧
      Suggests d "app" ["1", "2"] can attempt earlier last ∧ earlier.length = 2 := by
  intro d s can
  obtain ⟨attempt, earlier, last, chain, length⟩ := exists_chain_keepingTwo ⟨"ecu", none, false⟩ 2
  exact ⟨attempt, earlier, last, ⟨.fresh .., chain⟩,
    suggests_of_chain (.fresh ..) chain, length⟩

/-- With two versions on the list, none of three failures is said to be the last one, and the third
is to be followed by the version that has followed the first. -/
theorem chain_suggestsTwice :
    let d : Device Unit := ⟨noStaging, ⟨⟨"/v"⟩, ⟨"/b"⟩⟩, ⟨"ecu", none, false⟩⟩
    let s : Station Unit := .fresh () keepingTwo .accepting
    let can := canGoBack d keepingTwo "app"
    ∃ third second first last, Chain d "app" ["1", "2"] can s [third, second, first] last ∧
      (∀ attempt ∈ [third, second, first], attempt.remarks.terminalFailure = false) ∧
      ∃ version, first.remarks.rollbackVersion = some version ∧
        third.remarks.rollbackVersion = some version := by
  intro d s can
  obtain ⟨third, earlier, last, chain, length⟩ := exists_chain_keepingTwo ⟨"ecu", none, false⟩ 2
  obtain ⟨second, first, rfl⟩ : ∃ second first, earlier = [second, first] := by
    match earlier, length with
    | [second, first], _ => exact ⟨second, first, rfl⟩
  have goesOn {attempt : Attempt} {earlier : List Attempt} {last : Station Unit}
      (chain : Chain d "app" ["1", "2"] can s (attempt :: earlier) last) := by
    have one : "1" ∈ ["1", "2"] := by decide
    have two : "2" ∈ ["1", "2"] := by decide
    exact chain.repeats one two (canGoBack_keepingTwo _ one)
      (canGoBack_keepingTwo _ two) (by decide)
  obtain ⟨-, _, before⟩ := chain.suggested
  obtain ⟨suggested, _, beginning⟩ := before.suggested
  refine ⟨third, second, first, last, chain, ?_, second.tried, suggested, ?_⟩
  · simp [(goesOn chain).1, (goesOn before).1, (goesOn beginning).1]
  · exact ((goesOn chain).2 _ _ _ rfl).trans suggested

end OtaAgent.Course
