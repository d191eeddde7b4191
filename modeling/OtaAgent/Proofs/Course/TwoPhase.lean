import OtaAgent.Proofs.Course.CallOrder
import OtaAgent.Proofs.Course.Conclusions
import OtaAgent.Proofs.Session.Coupled

set_option autoImplicit false

namespace OtaAgent

variable {σ α β : Type}

/-- On sites that are alike the same comes of it, and it leaves sites that are alike. -/
def Deed.Agrees (alike : Site σ → Site σ → Prop) (deed : Deed σ α) : Prop :=
  ∀ site other, alike site other →
    (deed site).1 = (deed other).1 ∧ alike (deed site).2 (deed other).2

theorem Deed.Agrees.results {alike : Site σ → Site σ → Prop} {deed : Deed σ α}
    (agrees : Deed.Agrees alike deed) {site other after left : Site σ} {result again : α}
    (same : alike site other) (did : deed site = (result, after))
    (done : deed other = (again, left)) : result = again ∧ alike after left := by
  have both := agrees site other same
  rwa [did, done] at both

/-- Nothing that is done about a staged update depends on how sites differ that are alike. -/
structure Device.Indifferent (d : Device σ) (alike : Site σ → Site σ → Prop) : Prop where
  preInstall : ∀ u, Deed.Agrees alike (d.agent.preInstall u)
  install : ∀ u, Deed.Agrees alike (d.agent.install u)
  setVersion : ∀ r, Deed.Agrees alike (d.agent.setVersion d.archive r)
  postInstall : ∀ package, Deed.Agrees alike (d.agent.postInstall package)
  reinstate : ∀ package version,
    Deed.Agrees alike (Hook.ofJob (d.archive.reinstate package version))
  records : ∀ site other, alike site other →
    d.archive.get? site.files = d.archive.get? other.files
  digests : ∀ site other, alike site other → ∀ path,
    ((fileDigest path).runOn site.files).1 = ((fileDigest path).runOn other.files).1
  present : ∀ site other, alike site other → site.files.present = other.files.present

def Hook.SparesRecords (archive : Archive) (hook : Hook σ α) : Prop :=
  ∀ site, archive.get? (hook site).2.files = archive.get? site.files

theorem Hook.SparesRecords.same {archive : Archive} {hook : Hook σ α} {site after : Site σ}
    {answer : Answer α} (spares : Hook.SparesRecords archive hook)
    (answered : hook site = (answer, after)) :
    archive.get? after.files = archive.get? site.files := by
  have same := spares site
  rwa [answered] at same

/-- The hooks that stage a file change no record in the archive. -/
structure Device.StagesOnly (d : Device σ) : Prop where
  transferFile : ∀ u, Hook.SparesRecords d.archive (d.agent.transferFile u)
  prepareInstall : ∀ u, Hook.SparesRecords d.archive (d.agent.prepareInstall u)

/-- The files are the same, whatever the agent knows. -/
def Site.SameFiles (site other : Site σ) : Prop := site.files = other.files

theorem Hook.agrees_ofJob (job : FileJob α) :
    Deed.Agrees Site.SameFiles (Hook.ofJob (σ := σ) job) := by
  intro site other same
  unfold Hook.ofJob Site.SameFiles
  rw [show site.files = other.files from same]
  exact ⟨rfl, rfl⟩

theorem Hook.agrees_answer (a : α) :
    Deed.Agrees Site.SameFiles (Hook.answer a : Hook σ α) := fun _ _ same => ⟨rfl, same⟩

/-- An agent that counts how often it is asked for a version, and does not go by it. -/
def tallyAgent : Agent Nat where
  install := Hook.installing (.answer ⟨.completed, none⟩)
  getVersion := fun archive package site =>
    (.ok (archive.current? site.files package), { site with own := site.own + 1 })

theorem indifferent_tallyAgent (archive : Archive) (profile : Profile) :
    Device.Indifferent ⟨tallyAgent, archive, profile⟩ Site.SameFiles where
  preInstall _ := Hook.agrees_answer _
  install _ _ _ same := ⟨rfl, same⟩
  setVersion _ := Hook.agrees_ofJob _
  postInstall _ := Hook.agrees_answer _
  reinstate _ _ := Hook.agrees_ofJob _
  records _ _ same := congrArg archive.get? same
  digests _ _ same path := congrArg (fun t => ((fileDigest path).runOn t).1) same
  present _ _ same := congrArg Files.Tree.present same

namespace Course

section Installs

variable {d : Device σ} {order : Order} {alike : Site σ → Site σ → Prop}

/-- Two ways in which an install has gone differ in nothing but the files that were found. -/
structure SameWay (alike : Site σ → Site σ → Prop) (calls calls' : List Call)
    (said said' : List Json) (after after' : Site σ) (status status' : InstallStatus) : Prop where
  calls : calls.map (·.hook) = calls'.map (·.hook)
  said : said = said'
  site : alike after after'
  status : status = status'

variable {previous : Option String} {u : Update} {site site' after after' : Site σ}
  {calls calls' : List Call} {said said' : List Json} {reached status status' : InstallStatus}

theorem sayingFailed_of_alike (indifferent : d.Indifferent alike) (same : alike site site') :
    sayingFailed d order site.files = sayingFailed d order site'.files := by
  have records := indifferent.records site site' same
  have present := indifferent.present site site' same
  simp only [sayingFailed, failureRemarks, nextFallback?, Archive.backup?, records, present]

theorem receiptOf_of_alike (indifferent : d.Indifferent alike) (same : alike site site') :
    receiptOf site.files u = receiptOf site'.files u := by
  simp only [receiptOf, indifferent.digests site site' same]

theorem fallback?_of_alike (indifferent : d.Indifferent alike) (same : alike site site') :
    fallback? d site.files order u previous = fallback? d site'.files order u previous := by
  simp only [fallback?, Archive.backup?, indifferent.records site site' same]

theorem reinstated_of_alike (indifferent : d.Indifferent alike) (same : alike site site')
    {package version : String} {result result' : Except Error History} {files files' : Files.Tree}
    (ran : (d.archive.reinstate package version).runOn site.files = (result, files))
    (ran' : (d.archive.reinstate package version).runOn site'.files = (result', files')) :
    result.mapError Failure.error = result'.mapError .error ∧
      alike { site with files } { site' with files := files' } := by
  have both := indifferent.reinstate package version site site' same
  simp only [Hook.ofJob, ran, ran'] at both
  exact both

theorem Ends.sameWay (indifferent : d.Indifferent alike) (same : alike site site')
    (one : Ends d order previous u site reached calls said after status)
    (two : Ends d order previous u site' reached calls' said' after' status') :
    SameWay alike calls calls' said said' after after' status status' := by
  have target : fallback? d site.files order u previous =
      fallback? d site'.files order u previous := fallback?_of_alike indifferent same
  cases one with
  | completed recording telling => cases two with
    | completed recording' telling' =>
      rw [← receiptOf_of_alike indifferent same] at recording' ⊢
      obtain ⟨rfl, between⟩ :=
        (indifferent.setVersion _).results same recording recording'
      obtain ⟨rfl, left⟩ := (indifferent.postInstall _).results between telling telling'
      exact ⟨rfl, rfl, left, rfl⟩
    | failed notCompleted => exact absurd rfl notCompleted
  | noTarget unknown => cases two with
    | noTarget =>
      exact ⟨rfl, by rw [sayingFailed_of_alike indifferent same], same, rfl⟩
    | notRestored found | restored found =>
      rw [← target, unknown] at found
      cases found
    | failed _ notRollback => exact absurd rfl notRollback
  | notRestored found refused => cases two with
    | noTarget unknown =>
      rw [← target, found] at unknown
      cases unknown
    | notRestored found' refused' =>
      obtain rfl := Option.some.inj (found.symm.trans (target.trans found'))
      have left := (reinstated_of_alike indifferent same refused refused').2
      exact ⟨rfl, by rw [sayingFailed_of_alike indifferent left], left, rfl⟩
    | restored found' restoring =>
      obtain rfl := Option.some.inj (found.symm.trans (target.trans found'))
      cases (reinstated_of_alike indifferent same refused restoring).1
    | failed _ notRollback => exact absurd rfl notRollback
  | restored found restoring => cases two with
    | noTarget unknown =>
      rw [← target, found] at unknown
      cases unknown
    | notRestored found' refused =>
      obtain rfl := Option.some.inj (found.symm.trans (target.trans found'))
      cases (reinstated_of_alike indifferent same restoring refused).1
    | restored found' restoring' =>
      obtain rfl := Option.some.inj (found.symm.trans (target.trans found'))
      exact ⟨rfl, rfl, (reinstated_of_alike indifferent same restoring restoring').2, rfl⟩
    | failed _ notRollback => exact absurd rfl notRollback
  | aborted => cases two with
    | aborted => exact ⟨rfl, rfl, same, rfl⟩
    | failed _ _ notAborted => exact absurd rfl notAborted
  | failed notCompleted notRollback notAborted => cases two with
    | completed => exact absurd rfl notCompleted
    | noTarget | notRestored | restored => exact absurd rfl notRollback
    | aborted => exact absurd rfl notAborted
    | failed => exact ⟨rfl, by rw [sayingFailed_of_alike indifferent same], same, rfl⟩

/-- From sites that are alike an update is installed in the same way. -/
theorem Installs.sameWay (indifferent : d.Indifferent alike) (same : alike site site')
    (one : Installs d order previous u site calls said after status)
    (two : Installs d order previous u site' calls' said' after' status') :
    SameWay alike calls calls' said said' after after' status status' := by
  cases one with
  | calledOff answered => cases two with
    | calledOff answered' =>
      have left := ((indifferent.preInstall u).results same answered answered').2
      exact ⟨rfl, rfl, left, rfl⟩
    | notCleared answered' _ notAborted =>
      obtain ⟨rfl, -⟩ := (indifferent.preInstall u).results same answered answered'
      exact absurd rfl notAborted
    | installed cleared =>
      cases ((indifferent.preInstall u).results same answered cleared).1
  | notCleared answered notGoing notAborted => cases two with
    | calledOff answered' =>
      exact absurd ((indifferent.preInstall u).results same answered answered').1 notAborted
    | notCleared answered' =>
      obtain ⟨rfl, left⟩ := (indifferent.preInstall u).results same answered answered'
      exact ⟨rfl, by rw [sayingFailed_of_alike indifferent left], left, rfl⟩
    | installed cleared =>
      exact absurd ((indifferent.preInstall u).results same answered cleared).1 notGoing
  | installed cleared answered ends => cases two with
    | calledOff answered' =>
      cases ((indifferent.preInstall u).results same cleared answered').1
    | notCleared answered' notGoing =>
      exact absurd ((indifferent.preInstall u).results same cleared answered').1.symm notGoing
    | installed cleared' answered' ends' =>
      have going := ((indifferent.preInstall u).results same cleared cleared').2
      obtain ⟨rfl, done⟩ := (indifferent.install u).results going answered answered'
      obtain ⟨made, rfl, left, rfl⟩ := ends.sameWay indifferent done ends'
      exact ⟨by simp [made], rfl, left, rfl⟩

end Installs

variable {d : Device σ} {order : Order} {s next later final : Station σ} {u : Update}

section Records

variable {site after : Site σ} {calls : List Call} {said : List Json}

theorem Brings.records (stagesOnly : d.StagesOnly) {brought : Update}
    (brings : Brings d site u calls said after brought) :
    d.archive.get? after.files = d.archive.get? site.files := by
  cases brings with
  | backup isBackup => rfl
  | transfer notBackup answered success => exact (stagesOnly.transferFile u).same answered

/-- Getting an update ready changes no record. -/
theorem Stages.records (stagesOnly : d.StagesOnly)
    (stages : Stages d order site calls said after (.ready u)) :
    d.archive.get? after.files = d.archive.get? site.files := by
  cases stages with
  | planned plan goes => cases goes with
    | ready brings checked answered =>
      exact ((stagesOnly.prepareInstall _).same answered).trans (brings.records stagesOnly)

end Records

section Stretches

theorem runOn_bind_of_ok {c : Course σ β} {f : β → Course σ α} {b : β}
    (ran : runOn c s = (.ok b, next)) : runOn (c >>= f) s = runOn (f b) next := by
  rw [runOn_bind, ran]

theorem ensures_bind_of_ok {c : Course σ β} {f : β → Course σ α} {b : β}
    {post : α → Station σ → Prop} (ran : runOn c s = (.ok b, next))
    (rest : Ensures (f b) next post) : Ensures (c >>= f) s post :=
  (ensures_bind ..).mpr ((ensures_of_runOn ran).mpr rest)

theorem runOn_get_bind (f : Station σ → Course σ α) : runOn (get >>= f) s = runOn (f s) s :=
  runOn_bind_of_ok rfl

theorem runOn_files_bind (f : Files.Tree → Course σ α) :
    runOn (files >>= f) s = runOn (f s.site.files) s :=
  runOn_bind_of_ok rfl

theorem runOn_modify_bind (g : Station σ → Station σ) (f : Unit → Course σ α) :
    runOn (modify g >>= f) s = runOn (f ()) (g s) :=
  runOn_bind_of_ok rfl

/-- An update that is staged already is reported as ready again. -/
theorem onPrepare_again (left : runOn leaveFinished s = (.ok (), next))
    (found : stagedFor? next order = some u) : Ensures (onPrepare d order) s fun _ after =>
      after.site = next.site ∧ after.standing = next.standing ∧ after.calls = next.calls ∧
      after.outbox = next.outbox.sendAll [saying d order .ready] := by
  apply ensures_bind_of_ok left
  rw [ensures_bind, ensures_get, found]
  simp only [Option.isSome_some, if_true, ensures_bind, ensures_note, ensures_report, ensures_pure]
  simp [saying]

theorem onPrepare_new (left : runOn leaveFinished s = (.ok (), next))
    (new : stagedFor? next order = none) (taken : runOn (takeUp d order) next = (.ok (), later))
    (staged : runOn (stage d order) later = (.ok (.ready u), final)) :
    Ensures (onPrepare d order) s fun _ after => after.site = final.site ∧
      after.standing = { final.standing with staged := some u } ∧ after.calls = final.calls ∧
      after.outbox = final.outbox.sendAll [saying d order .ready] := by
  apply ensures_bind_of_ok left
  rw [ensures_bind, ensures_get, new]
  apply ensures_bind_of_ok taken
  apply ensures_bind_of_ok staged
  simp only [ensures_bind, ensures_note, ensures_modify, ensures_report, ensures_pure]
  refine ⟨by simp, ?_, by simp, by simp [saying]⟩
  rw [Station.standing_reported]
  rfl

theorem onPrepare_ended {status : InstallStatus} (left : runOn leaveFinished s = (.ok (), next))
    (new : stagedFor? next order = none) (taken : runOn (takeUp d order) next = (.ok (), later))
    (staged : runOn (stage d order) later = (.ok (.ended status), final)) :
    runOn (onPrepare d order) s = (.ok status, final) := by
  unfold onPrepare
  rw [runOn_bind_of_ok left, runOn_get_bind, new]
  exact (runOn_bind_of_ok taken).trans (runOn_bind_of_ok staged)

/-- An update that is staged is installed as it is. -/
theorem onInstall_staged (left : runOn leaveFinished s = (.ok (), next))
    (found : stagedFor? next order = some u) : runOn (onInstall d order) s =
      runOn (checkAndInstall d order u (d.archive.current? next.site.files order.release.name))
        { next with staged := none } := by
  unfold onInstall
  simp only [runOn_bind_of_ok left, runOn_files_bind, runOn_get_bind, found, runOn_modify_bind]

/-- Any other is staged first. -/
theorem onInstall_new (left : runOn leaveFinished s = (.ok (), next))
    (new : stagedFor? next order = none) (taken : runOn (takeUp d order) next = (.ok (), later))
    (staged : runOn (stage d order) later = (.ok (.ready u), final)) :
    runOn (onInstall d order) s =
      runOn (checkAndInstall d order u (d.archive.current? next.site.files order.release.name))
        final := by
  unfold onInstall
  simp only [runOn_bind_of_ok left, runOn_files_bind, runOn_get_bind, new]
  exact (runOn_bind_of_ok taken).trans (runOn_bind_of_ok staged)

end Stretches

/-- `after` comes of something that is not about an update of this device: the device manager comes
or goes, a message is offered to the agent, or an event is dealt with. -/
inductive Aside (d : Device σ) (s : Station σ) : Station σ → Prop
  | presence (connected : Bool) : Aside d s ((onPresence d connected).runOn s).2
  | message (kind raw : String) : Aside d s ((Session.offerMessage d kind raw).runOn s).2
  | event {e : Event} (other : e.handler? = some d.profile.handler → e.release? = none) :
      Aside d s (runOn (route d e) s).2

/-- Things that are not about an update follow each other. -/
inductive Meantime (d : Device σ) (s : Station σ) : Station σ → Prop
  | nothing : Meantime d s s
  | next {later after : Station σ} (before : Meantime d s later) (aside : Aside d later after) :
      Meantime d s after

def IsReply (v : Json) : Prop := ∃ replyTo package, v = Report.queryReply replyTo package

/-- `after` is what becomes of `s` while at most queries are answered. -/
structure Replies (s after : Station σ) (replies : List Json) : Prop where
  pauses : s.Pauses after
  outbox : after.outbox = s.outbox.sendAll replies
  only : ∀ v ∈ replies, IsReply v

section Meantime

variable {replies more : List Json}

theorem Replies.refl (s : Station σ) : Replies s s [] :=
  ⟨⟨rfl, [], (List.append_nil _).symm, by simp⟩, rfl, by simp⟩

theorem Replies.trans (first : Replies s next replies) (second : Replies next later more) :
    Replies s later (replies ++ more) := by
  obtain ⟨calls, made, quiet⟩ := first.pauses.calls
  obtain ⟨others, madeMore, still⟩ := second.pauses.calls
  refine ⟨⟨second.pauses.standing.trans first.pauses.standing, calls ++ others, ?_, ?_⟩, ?_, ?_⟩
  · rw [madeMore, made, List.append_assoc]
  · intro call among
    exact (List.mem_append.mp among).elim (quiet call) (still call)
  · rw [second.outbox, first.outbox, Outbox.sendAll_append]
  · intro v among
    exact (List.mem_append.mp among).elim (first.only v) (second.only v)

theorem replies_noted (e : LogEntry) : Replies s (s.noted e) [] where
  pauses := ⟨Station.standing_noted .., [], by simp, by simp⟩
  outbox := Station.outbox_noted ..
  only := by simp

theorem replies_called {hook : HookCall} (aside : hook.isStep = false) (site : Site σ) :
    Replies s (s.called hook site) [] where
  pauses := ⟨Station.standing_called .., [_], Station.calls_called .., by simpa using aside⟩
  outbox := Station.outbox_called ..
  only := by simp

theorem replies_presence (connected : Bool) :
    Replies s ((onPresence d connected).runOn s).2 [] := by
  rw [Session.runOn_onPresence]
  split
  · exact (replies_called rfl _).trans (replies_noted _)
  · exact replies_called rfl _

theorem replies_deal {e : Event} (about : e.release? = none) :
    Ensures (deal d e) s fun _ after => ∃ replies, Replies s after replies := by
  cases e with
  | offered | prepare | install => cases about
  | query handler package replyId =>
    refine (ensures_bind ..).mpr (Ensures.imp (onQuery_leads package replyId) ?_)
    intro _ after led
    obtain ⟨calls, said, ⟨answer, answered, rfl, rfl, stands⟩, made, sent⟩ := led
    refine ⟨_, ⟨stands, _, made, by simp [HookCall.isStep]⟩, sent, ?_⟩
    intro v among
    cases answer with
    | error e => cases among
    | ok version => exact ⟨_, _, List.mem_singleton.mp among⟩
  | confirmed | downloading | unhandled => exact ⟨[], replies_noted _⟩

theorem Aside.exists_replies (aside : Aside d s next) : ∃ replies, Replies s next replies := by
  cases aside with
  | presence connected => exact ⟨[], replies_presence connected⟩
  | message kind raw =>
    rw [Session.runOn_offerMessage]
    exact ⟨[], replies_called rfl _⟩
  | @event e other =>
    have ensures : Ensures (route d e) s fun _ after => ∃ replies, Replies s after replies := by
      unfold route
      cases addressed : e.handler? with
      | none =>
        have about : e.release? = none := by
          cases e <;> first | rfl | cases addressed
        exact replies_deal about
      | some handler =>
        by_cases here : handler = d.profile.handler
        · simp only [here, ne_eq, not_true_eq_false, if_false]
          exact replies_deal (other (addressed.trans (congrArg some here)))
        · simp only [here, ne_eq, not_false_eq_true, if_true]
          exact ⟨[], replies_noted _⟩
    exact ensures.left

theorem Meantime.exists_replies (meantime : Meantime d s next) :
    ∃ replies, Replies s next replies := by
  induction meantime with
  | nothing => exact ⟨[], .refl s⟩
  | next before aside ih =>
    obtain ⟨replies, earlier⟩ := ih
    obtain ⟨more, now⟩ := aside.exists_replies
    exact ⟨replies ++ more, earlier.trans now⟩

end Meantime

/-- The order has been got ready at `ready`, which is what the order to install it comes to as
well, from `s`, before anything is installed. -/
structure Readied (d : Device σ) (order : Order) (s prepared ready : Station σ) (u : Update) :
    Prop where
  standing : prepared.standing = ⟨.preInstall, some u, none⟩
  staged : u.prepared = some .ready
  isFor : u.isFor order = true
  site : prepared.site = ready.site
  calls : prepared.calls = ready.calls
  outbox : prepared.outbox = ready.outbox.sendAll [saying d order .ready]
  waiting : ready.standing = ⟨.preInstall, none, none⟩
  beginning : ∃ calls said, ready.calls = s.calls ++ calls ∧ ready.outbox = s.outbox.sendAll said
  records : d.archive.get? ready.site.files = d.archive.get? s.site.files
  goesOn : runOn (onInstall d order) s =
    runOn (checkAndInstall d order u (d.archive.current? s.site.files order.release.name)) ready

theorem standing_unstaged (waits : s.standing = ⟨.preInstall, some u, none⟩) :
    Station.standing { s with staged := none } = ⟨.preInstall, none, none⟩ := by
  have phase : s.phase = .preInstall := congrArg Standing.phase waits
  have awaited : s.awaited = none := congrArg Standing.awaited waits
  rw [Station.standing_mk, phase, awaited]

theorem readied_of_onPrepare {prepared : Station σ} (reached : Reachable d s)
    (stagesOnly : d.StagesOnly) (ran : runOn (onPrepare d order) s = (.ok .ready, prepared)) :
    ∃ ready u, Readied d order s prepared ready u := by
  obtain ⟨_, next, left, _, _, ⟨rfl, rfl, here, stands⟩, made, sent⟩ :=
    (leaveFinished_leads (s := s)).exists_ok
  have opened : next.standing.Open := stands ▸ reached.atRest.open_resumed
  have found : stagedFor? next order = next.staged.filter (·.isFor order) :=
    stagedFor?_of_open opened
  cases staging : next.staged.filter (·.isFor order) with
  | some u =>
    rw [staging] at found
    obtain ⟨staged, isFor⟩ := Option.filter_eq_some_iff.mp staging
    have waits := opened.eq_of_staged staged
    have ready : u.prepared = some .ready := by
      rw [waits] at opened
      cases opened with
      | staged _ ready => exact ready
    obtain ⟨sited, standing, calls, outbox⟩ :=
      (ensures_of_runOn ran).mp (onPrepare_again left found)
    refine ⟨{ next with staged := none }, u, standing.trans waits, ready, isFor, sited, calls,
      outbox, standing_unstaged waits, ⟨[], [], made, sent⟩, congrArg (d.archive.get? ·.files) here,
      ?_⟩
    rw [onInstall_staged left found, here]
  | none =>
    rw [staging] at found
    have takes : Leads (takeUp d order) next _ := takeUp_leads opened
    obtain ⟨_, later, taken, _, _, ⟨rfl, rfl, there, awaiting⟩, madeThen, sentThen⟩ :=
      takes.exists_ok
    have goes : Leads (stage d order) later _ := stage_leads awaiting
    obtain ⟨result, final, stagedTo, calls, said, ⟨stages, leaves⟩, madeLast, sentLast⟩ :=
      goes.exists_ok
    cases result with
    | ended status =>
      have same := (onPrepare_ended left found taken stagedTo).symm.trans ran
      obtain rfl : status = .ready := Except.ok.inj (congrArg Prod.fst same)
      obtain ⟨how, -⟩ := stages.closes
      simp at how
    | ready u =>
      obtain ⟨sited, standing, made', outbox⟩ :=
        (ensures_of_runOn ran).mp (onPrepare_new left found taken stagedTo)
      refine ⟨final, u, ?_, stages.prepared, beq_iff_eq.mpr stages.release, sited, made', outbox,
        leaves, ⟨calls, takingUp d next.standing order ++ said, ?_, ?_⟩, ?_, ?_⟩
      · rw [standing, leaves]
        rfl
      · rw [madeLast, madeThen, made]
        simp
      · rw [sentLast, sentThen, sent, Outbox.sendAll_append]
        rfl
      · rw [stages.records stagesOnly, there, here]
      · rw [onInstall_new left found taken stagedTo, here]

/-- Installing at once, which comes to `one`, and installing what was prepared, which comes to
`two`, differ in nothing but one report that the update is ready and what was replied between. -/
structure SameOutcome (d : Device σ) (order : Order) (alike : Site σ → Site σ → Prop)
    (s one two : Station σ) : Prop where
  standing : one.standing = two.standing
  site : alike one.site two.site
  records : d.archive.get? one.site.files = d.archive.get? two.site.files
  calls : ∃ atOnce parted, one.calls = s.calls ++ atOnce ∧ two.calls = s.calls ++ parted ∧
    (steps atOnce).map (·.hook) = (steps parted).map (·.hook)
  outbox : ∃ before replies last, one.outbox = s.outbox.sendAll (before ++ last) ∧
    two.outbox = s.outbox.sendAll (before ++ [saying d order .ready] ++ replies ++ last) ∧
    ∀ v ∈ replies, IsReply v

theorem steps_append (calls more : List Call) : steps (calls ++ more) = steps calls ++ steps more :=
  List.filter_append ..

theorem steps_of_quiet {calls : List Call} (quiet : ∀ call ∈ calls, call.hook.isStep = false) :
    steps calls = [] :=
  List.filter_eq_nil_iff.mpr fun call among => by simp [quiet call among]

theorem map_hook_steps {calls calls' : List Call}
    (same : calls.map (·.hook) = calls'.map (·.hook)) :
    (steps calls).map (·.hook) = (steps calls').map (·.hook) := by
  have mapped (calls : List Call) :
      (steps calls).map (·.hook) = (calls.map (·.hook)).filter (·.isStep) := by
    rw [List.filter_map]
    rfl
  rw [mapped, mapped, same]

/-- An order to install what is staged goes on with the checks. -/
theorem onInstall_of_standing (standing : s.standing = ⟨.preInstall, some u, none⟩)
    (ready : u.prepared = some .ready) (isFor : u.isFor order = true) :
    runOn (onInstall d order) s =
      runOn (checkAndInstall d order u (d.archive.current? s.site.files order.release.name))
        { s with staged := none } := by
  have opened : s.standing.Open := by
    rw [standing]
    exact .staged u ready
  have found : stagedFor? s order = some u := by
    have staged : s.staged = some u := congrArg Standing.staged standing
    rw [stagedFor?_of_open opened, staged]
    simp [Option.filter, isFor]
  have left : runOn leaveFinished s = (.ok (), s) := by
    have phase : s.phase = .preInstall := congrArg Standing.phase standing
    unfold leaveFinished
    rw [runOn_get_bind, phase]
    rfl
  exact onInstall_staged left found

/-- Where an order to prepare is answered as ready, the order to install that follows it comes to
the same as one that comes in its place. -/
theorem onInstall_of_onPrepare {alike : Site σ → Site σ → Prop} {prepared : Station σ}
    (reached : Reachable d s) (stagesOnly : d.StagesOnly) (indifferent : d.Indifferent alike)
    (ran : runOn (onPrepare d order) s = (.ok .ready, prepared))
    (meantime : Meantime d prepared later) (same : alike prepared.site later.site) :
    ∃ status one two, runOn (onInstall d order) s = (.ok status, one) ∧
      runOn (onInstall d order) later = (.ok status, two) ∧
      SameOutcome d order alike s one two := by
  obtain ⟨ready, u, readied⟩ := readied_of_onPrepare reached stagesOnly ran
  obtain ⟨replies, pauses, replied, only⟩ := meantime.exists_replies
  obtain ⟨others, madeBetween, quiet⟩ := pauses.calls
  obtain ⟨calls, before, made, sent⟩ := readied.beginning
  -- The update is still staged, so that the second order goes on from where the first one went on.
  have standing : later.standing = ⟨.preInstall, some u, none⟩ :=
    pauses.standing.trans readied.standing
  have current : d.archive.current? later.site.files order.release.name =
      d.archive.current? s.site.files order.release.name := by
    have unchanged := indifferent.records _ _ same
    rw [readied.site, readied.records] at unchanged
    rw [Archive.current?, Archive.current?, unchanged]
  have again := onInstall_of_standing (d := d) standing readied.staged readied.isFor
  rw [current] at again
  have first : Leads (checkAndInstall d order u
      (d.archive.current? s.site.files order.release.name)) _ _ :=
    checkAndInstall_leads readied.waiting
  obtain ⟨status, one, ranOnce, atOnce, said, ⟨installs, stands⟩, madeOnce, sentOnce⟩ :=
    first.exists_ok
  have second : Leads (checkAndInstall d order u
      (d.archive.current? s.site.files order.release.name)) _ _ :=
    checkAndInstall_leads (standing_unstaged standing)
  obtain ⟨status', two, ranThen, parted, said', ⟨installs', stands'⟩, madeThen, sentThen⟩ :=
    second.exists_ok
  rw [readied.site] at same
  obtain ⟨hooks, rfl, sites, rfl⟩ := installs.sameWay indifferent same installs'
  refine ⟨status, one, two, readied.goesOn.trans ranOnce, again.trans ranThen, ?_⟩
  refine ⟨stands.trans stands'.symm, sites, indifferent.records _ _ sites,
    ⟨calls ++ atOnce, calls ++ others ++ parted, ?_, ?_, ?_⟩, ⟨before, replies, said, ?_, ?_, only⟩⟩
  · rw [madeOnce, made, List.append_assoc]
  · rw [madeThen, madeBetween, readied.calls, made]
    simp
  · simp only [steps_append, steps_of_quiet quiet, List.append_nil, List.map_append,
      map_hook_steps hooks]
  · rw [sentOnce, sent, Outbox.sendAll_append]
  · rw [sentThen, replied, readied.outbox, sent]
    simp only [Outbox.sendAll_append]

/-- A version is asked for, which the agent counts, between the two orders. -/
theorem onInstall_of_onPrepare_queried :
    let d : Device Nat := ⟨tallyAgent, ⟨⟨"/versions"⟩, ⟨"/backups"⟩⟩, ⟨"ecu", none, false⟩⟩
    let order : Order := ⟨⟨"app", "2"⟩, "ecu", [⟨"2", ⟨"/app"⟩, none, true⟩], none, []⟩
    let s : Station Nat := .fresh 0 ((Files.Tree.empty []).put ["app"] (.file [1])) .accepting
    let prepared := (runOn (onPrepare d order) s).2
    let later := (runOn (route d (.query "ecu" "app" none)) prepared).2
    (Reachable d s ∧ d.StagesOnly ∧ d.Indifferent Site.SameFiles ∧
      runOn (onPrepare d order) s = (.ok .ready, prepared) ∧ Meantime d prepared later ∧
      prepared.site.SameFiles later.site) ∧ prepared.site.own ≠ later.site.own ∧
      ∃ status one two, runOn (onInstall d order) s = (.ok status, one) ∧
        runOn (onInstall d order) later = (.ok status, two) ∧
        SameOutcome d order Site.SameFiles s one two := by
  intro d order s prepared later
  have stagesOnly : d.StagesOnly := ⟨fun _ _ => rfl, fun _ _ => rfl⟩
  have indifferent : d.Indifferent Site.SameFiles := indifferent_tallyAgent ..
  have ran : runOn (onPrepare d order) s = (.ok .ready, prepared) := Prod.ext rfl rfl
  have meantime : Meantime d prepared later := .next .nothing (.event fun _ => rfl)
  have same : prepared.site.SameFiles later.site := rfl
  have counted : prepared.site.own ≠ later.site.own := by decide +kernel
  exact ⟨⟨.fresh .., stagesOnly, indifferent, ran, meantime, same⟩, counted,
    onInstall_of_onPrepare (.fresh ..) stagesOnly indifferent ran meantime same⟩

end Course
end OtaAgent
