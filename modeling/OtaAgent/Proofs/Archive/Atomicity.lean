import OtaAgent.Proofs.Archive.Refinement
import OtaAgent.Proofs.Files.Resumed

set_option autoImplicit false

namespace OtaAgent

open Files

theorem History.install_install (h : History) (version : String) (b : Backup) :
    (h.install version b).install version b = h.install version b := by
  rw [History.install, History.install, Table.insert_insert]

namespace Archive

variable {a : Archive} {package version : String} {t x next : Tree} {r : Receipt}

section Cuts

variable {places : Location → Prop}

theorem attempts_keepsAll {op : Op} (builds : op.Builds) (sound : t.Sound)
    (inside : ∀ loc, op.Touches t.cwd loc → places loc) :
    Job.Attempts (fun _ (job : FileJob _) => Job.Throughout (t.KeepsAll · places) job) op :=
  fun _ => Job.throughout_attempt (Op.safe_keepsAll builds sound inside)

/-- A history is put in place by the last step alone. -/
theorem replacing_keepsAll (isName : Path.IsName package) (sound : t.Sound)
    (inside : ∀ loc, a.Scratch t package loc → places loc) :
    a.Replacing (fun _ => Job.Throughout (t.KeepsAll · places))
      (fun _ => Job.UntilLast (t.KeepsAll · places)) package :=
  replacing_of_inside isName
    (fun _ plain there => attempts_keepsAll plain.builds sound fun loc touched =>
      inside loc (there loc touched))
    fun _ _ => Job.untilLast_rename

/-- Cut off before its last step, recording has changed nothing but what lies beside the history. -/
theorem untilLast_record (sound : t.Sound) (r : Receipt) :
    Job.UntilLast (t.KeepsAll · (a.Beside t r)) (a.record r) :=
  Job.rules_untilLast.record (fun _ => attempts_keepsAll trivial sound fun _ => False.elim)
    (fun _ => ⟨fun _ _ => attempts_keepsAll trivial sound fun _ => False.elim,
      attempts_keepsAll trivial sound fun _ => .inl⟩)
    fun valid => replacing_keepsAll (isName_of_canNameFile valid) sound fun _ => .inr

theorem untilLast_reinstate (sound : t.Sound) (package version : String) :
    Job.UntilLast (t.KeepsAll · (a.Scratch t package)) (a.reinstate package version) :=
  Job.rules_untilLast.reinstate (fun _ => attempts_keepsAll trivial sound fun _ => False.elim)
    fun valid => replacing_keepsAll (isName_of_canNameFile valid) sound fun _ => id

theorem get?_of_keepsAll (valid : canNameFile package = true) (reach : a.InReach t package)
    (outside : ¬ places (a.historyAt t package)) (kept : t.KeepsAll x places) :
    a.get? x package = a.get? t package ∧ a.InReach x package := by
  have same := kept.content _ outside
  exact ⟨reach.get?_of_content valid kept.toKeepsDirs same,
    reach.of_content valid kept.toKeepsDirs same⟩

/-- Cut off anywhere, a request leaves the history that was read before, or the one that it
makes. -/
theorem get?_of_leaves {q : Request} (valid : canNameFile package = true)
    (reach : a.InReach t package) (outside : q.StaysOutside a package t)
    (left : (q.job a package).Leaves t x) :
    (a.get? x package = a.get? t package ∨
      a.get? x package = a.get? ((q.job a package).runOn t).2 package) ∧ a.InReach x package := by
  have done := (serves_job valid reach outside rfl).2
  have started (places : Location → Prop) : t.KeepsAll t places := .refl t places
  cases q with
  | record r =>
    rcases untilLast_record reach.sound _ t x (started _) left with kept | rfl
    · have apart := not_beside_historyAt (ne_historyAt_of_outside outside)
      exact (get?_of_keepsAll valid reach apart kept).imp_left .inl
    · exact ⟨.inr rfl, done⟩
  | reinstate version =>
    rcases untilLast_reinstate reach.sound package version t x (started _) left with kept | rfl
    · exact (get?_of_keepsAll valid reach not_scratch_historyAt kept).imp_left .inl
    · exact ⟨.inr rfl, done⟩

end Cuts

section Again

variable {cwd : Location} {held : Location → Prop}

/-- A file that lies where it is to be backed up is left there. -/
theorem backUp_bind_of_same {β : Type} (f : Path → FileJob β)
    (same : (a.backupPath r.package r.version r.file).same r.file = true) :
    a.backUp r >>= f = f (a.backupPath r.package r.version r.file) := by
  unfold backUp
  dsimp only
  rw [if_pos same]
  rfl

theorem backUp_bind {β : Type} {dir : Path} (f : Path → FileJob β)
    (other : ¬ (a.backupPath r.package r.version r.file).same r.file = true)
    (up : (a.backupPath r.package r.version r.file).parent? = some dir) :
    a.backUp r >>= f = Job.attempt (.makeDirs dir) (.file (.makeBackupDir dir)) >>= fun _ =>
      Job.attempt (.copy r.file (a.backupPath r.package r.version r.file))
        (.file (.backUp r.file (a.backupPath r.package r.version r.file))) >>= fun _ =>
      f (a.backupPath r.package r.version r.file) := by
  unfold backUp
  dsimp only
  rw [if_neg other, up]
  dsimp only
  rw [Job.bind_assoc]
  refine congrArg _ (funext fun _ => ?_)
  rw [Job.bind_assoc]
  rfl

theorem follows_openLock (package : String) :
    Job.Follows cwd held (fun loc => held loc ∨ loc = (a.lockPath package).lead cwd)
      (a.openLock package) (a.openLock package) :=
  .bind Job.follows_touch fun _ _ => .pure _ _

theorem follows_base (package version : String) :
    Job.Follows cwd held held (a.base package version) (a.base package version) := by
  intro t x h next alike ran
  rw [runOn_base] at ran
  cases ran
  exact ⟨_, x, runOn_base, alike⟩

/-- Whether a history can be put in place does not depend on the history. -/
theorem follows_replace (package : String) (h h' : History) :
    Job.Follows cwd held (fun loc => held loc ∨ loc = (a.draftPath package).lead cwd)
      (a.replace package h) (a.replace package h') :=
  .bind Job.follows_create fun _ _ => .bind (Job.follows_append (.inr rfl)) fun _ _ =>
    .bind (Job.follows_rename (.inr rfl)) fun _ _ => .pure _ _

theorem follows_conclude (r : Receipt) (backup : Path) :
    ∃ after, Job.Follows cwd held after (a.conclude r backup) (a.conclude r backup) :=
  ⟨_, .bind (follows_openLock r.package) fun _ _ => .bind (follows_base _ _) fun _ _ =>
    .bind (follows_replace _ _ _) fun _ _ => .pure _ _⟩

theorem prefix_of_belongs {loc : Location} (belongs : a.Belongs t package loc) :
    a.at_ t <+: loc := by
  rcases belongs with rfl | rfl | rfl
  all_goals exact List.prefix_append _ _

variable {y : Tree}

/-- The file that was installed stays where it is while its install is recorded. -/
theorem safe_alike_of_belongs {op : Op} (plain : op.Plain)
    (source : ¬ a.at_ t <+: r.file.lead t.cwd)
    (inside : ∀ loc, op.Touches t.cwd loc → a.Belongs t r.package loc) :
    op.Safe (Tree.Alike t.cwd (· = r.file.lead t.cwd) y ·) := by
  refine Op.safe_alike plain fun loc here touched => source ?_
  subst here
  exact prefix_of_belongs (inside _ touched)

theorem throughout_conclude (isName : Path.IsName r.package)
    (source : ¬ a.at_ t <+: r.file.lead t.cwd) (backup : Path) :
    Job.Throughout (Tree.Alike t.cwd (· = r.file.lead t.cwd) y ·) (a.conclude r backup) := by
  have replacing : a.Replacing
      (fun _ => Job.Throughout (Tree.Alike t.cwd (· = r.file.lead t.cwd) y ·))
      (fun _ => Job.Throughout (Tree.Alike t.cwd (· = r.file.lead t.cwd) y ·)) r.package :=
    replacing_of_inside (t := t) isName
      (fun _ plain inside _ => Job.throughout_attempt (safe_alike_of_belongs plain source
        fun loc touched => .inr (inside loc touched)))
      fun inside _ => Job.throughout_attempt (safe_alike_of_belongs trivial source inside)
  exact Job.rules_throughout.conclude replacing backup

theorem restarts_conclude (isName : Path.IsName r.package)
    (source : ¬ a.at_ t <+: r.file.lead t.cwd) (sound : y.Sound) (here : y.cwd = t.cwd)
    {backup : Path} (left : (a.conclude r backup).Leaves y x) :
    (a.conclude r backup).Restarts y x := by
  obtain ⟨after, follows⟩ : ∃ after, Job.Follows t.cwd (· = r.file.lead t.cwd) after
    (a.conclude r backup) (a.conclude r backup) := follows_conclude r backup
  exact follows.restarts (throughout_conclude isName source backup) sound here left

theorem restarts_copy (isName : Path.IsName r.package)
    (source : ¬ a.at_ t <+: r.file.lead t.cwd) (sound : y.Sound) (here : y.cwd = t.cwd)
    {backup : Path} {fault : IoFault → Error}
    (left : (Job.attempt (.copy r.file backup) fault >>= fun _ => a.conclude r backup).Leaves y x) :
    (Job.attempt (.copy r.file backup) fault >>= fun _ => a.conclude r backup).Restarts y x := by
  obtain ⟨after, follows⟩ : ∃ after, Job.Follows t.cwd (· = r.file.lead t.cwd) after
    (a.conclude r backup) (a.conclude r backup) := follows_conclude r backup
  have copies : Job.Follows t.cwd (· = r.file.lead t.cwd) (· = r.file.lead t.cwd)
    (Job.attempt (.copy r.file backup) fault) (Job.attempt (.copy r.file backup) fault) :=
    Job.follows_copy rfl
  refine (copies.bind fun _ _ => follows).restarts ?_ sound here left
  exact .bind (Job.throughout_attempt Op.safe_alike_copy) fun _ =>
    throughout_conclude isName source backup

theorem restarts_backUp (isName : Path.IsName r.package)
    (source : ¬ a.at_ t <+: r.file.lead t.cwd) (sound : y.Sound) (here : y.cwd = t.cwd)
    (left : (a.backUp r >>= a.conclude r).Leaves y x) :
    (a.backUp r >>= a.conclude r).Restarts y x := by
  by_cases same : (a.backupPath r.package r.version r.file).same r.file = true
  · rw [backUp_bind_of_same _ same] at left ⊢
    exact restarts_conclude isName source sound here left
  · obtain ⟨dir, up⟩ := Path.exists_parent?_join ((a.backupDir.join r.package).join r.version)
      (@isName_backup _ r.file isName)
    rw [backUp_bind _ same up] at left ⊢
    refine (Job.resumes_makeDirs dir _).restarts sound (fun _ opened x kept left => ?_) left
    exact restarts_copy isName source (sound.of_keepsDirs kept) (kept.cwd.trans here) left

theorem resumes_checkName (package : String) : Job.Resumes (checkName package) where
  builds t x _ left := by
    rw [still_checkName package t x left]
    exact .refl t
  again t x _ next left := by rw [still_checkName package t x left]
  settled t x u next ran _ := by
    obtain ⟨valid, -⟩ := canNameFile_of_runOn ran
    exact runOn_checkName valid

theorem leaves_named {β : Type} {f : Unit → FileJob β} (invalid : ¬ canNameFile package = true)
    (left : (checkName package >>= f).Leaves t x) : x = t := by
  rw [checkName, if_neg invalid] at left
  rcases Job.leaves_bind.mp left with left | ⟨_, _, ran, -⟩
  · exact Job.leaves_throw.mp left
  · cases ran

theorem resumes_makeVersionDir : Job.Resumes a.makeVersionDir :=
  (Job.resumes_makeDirs a.versionDir _).map fun _ => ()

/-- An install that is recorded again after a cut is recorded if it would have been. -/
theorem restarts_record (sound : t.Sound) (source : ¬ a.at_ t <+: r.file.lead t.cwd)
    (left : (a.record r).Leaves t x) : (a.record r).Restarts t x := by
  rw [record_eq] at left ⊢
  by_cases valid : canNameFile r.package = true
  · have isName := isName_of_canNameFile valid
    refine (resumes_checkName r.package).restarts sound (fun _ named x kept left => ?_) left
    have sound := sound.of_keepsDirs kept
    refine resumes_makeVersionDir.restarts sound (fun _ made x kept' left => ?_) left
    exact restarts_backUp isName source (sound.of_keepsDirs kept') (kept'.cwd.trans kept.cwd) left
  · rw [leaves_named valid left]
    exact ⟨.refl t, .rfl⟩

/-- An install that is recorded twice is recorded once. -/
theorem record_again {h h' : History} {last last' : Tree} (valid : canNameFile r.package = true)
    (reach : a.InReach t r.package) (reach' : a.InReach x r.package)
    (outside : a.BacksUpOutside t r) (here : x.cwd = t.cwd)
    (read : a.get? x r.package = a.get? t r.package ∨
      a.get? x r.package = a.get? last r.package)
    (ran : (a.record r).runOn t = (.ok h, last)) (again : (a.record r).runOn x = (.ok h', last')) :
    h' = h ∧ a.get? last' r.package = a.get? last r.package := by
  have outside' : a.BacksUpOutside x r := by
    rw [BacksUpOutside, at_of_cwd here, here]
    exact outside
  obtain ⟨made, said, -⟩ := get?_of_record valid reach (ne_historyAt_of_outside outside) ran
  obtain ⟨made', said', -⟩ := get?_of_record valid reach' (ne_historyAt_of_outside outside') again
  have same : h' = h := by
    rcases read with before | after
    · rw [made', made, before]
    · rw [made', after, said, made]
      exact History.install_install _ _ _
  exact ⟨same, by rw [said, said', same]⟩

/-- Both times the same has been recorded, or both times nothing was. -/
structure Agrees (a : Archive) (package : String) (once again : Except Error History × Tree) :
    Prop where
  granted : ∀ h, again.1 = .ok h ↔ once.1 = .ok h
  read : a.get? again.2 package = a.get? once.2 package

theorem agrees_record (valid : canNameFile r.package = true) (reach : a.InReach t r.package)
    (reach' : a.InReach x r.package) (outside : a.BacksUpOutside t r)
    (restarts : (a.record r).Restarts t x)
    (read : a.get? x r.package = a.get? t r.package ∨
      a.get? x r.package = a.get? ((a.record r).runOn t).2 r.package) :
    a.Agrees r.package ((a.record r).runOn t) ((a.record r).runOn x) := by
  have here := restarts.dirs.cwd
  have grants := restarts.grants
  unfold Job.Grants at grants
  cases ran : (a.record r).runOn t with
  | mk result last => cases again : (a.record r).runOn x with
    | mk result' last' =>
      rw [ran] at grants read
      rw [again] at grants
      cases result with
      | ok h => cases result' with
        | ok h' =>
          obtain ⟨rfl, same⟩ := record_again valid reach reach' outside here read ran again
          exact ⟨fun _ => .rfl, same⟩
        | error e =>
          obtain ⟨_, _, granted⟩ := grants.mpr ⟨h, last, rfl⟩
          cases granted
      | error e => cases result' with
        | ok h' =>
          obtain ⟨_, _, granted⟩ := grants.mp ⟨h', last', rfl⟩
          cases granted
        | error e' =>
          have outside' : a.BacksUpOutside x r := by
            rw [BacksUpOutside, at_of_cwd here, here]
            exact outside
          obtain ⟨before, -⟩ :=
            get?_of_record_error valid reach (ne_historyAt_of_outside outside) ran
          obtain ⟨after, -⟩ :=
            get?_of_record_error valid reach' (ne_historyAt_of_outside outside') again
          refine ⟨fun _ => ⟨nofun, nofun⟩, ?_⟩
          rw [after, before]
          rcases read with same | same
          · exact same
          · rw [same, before]

end Again

theorem get?_of_invalid (invalid : ¬ canNameFile package = true) (t : Tree) :
    a.get? t package = none := by
  cases found : a.get? t package with
  | none => rfl
  | some h => exact absurd (canNameFile_of_get? found) invalid

/-- A request can be cut off anywhere: the history that is read then is the one from before, or the
one that the whole request would have left. Recorded again, an install is recorded as it would have
been, even if it was cut off while it replaced the history, the backup or a draft. -/
theorem request_atomic {q : Request} (reach : a.InReach t package)
    (outside : q.StaysOutside a package t) (left : (q.job a package).Leaves t x) :
    (a.get? x package = a.get? t package ∨
        a.get? x package = a.get? ((q.job a package).runOn t).2 package) ∧
      ∀ r, q = .record r → ¬ a.at_ t <+: r.file.lead t.cwd →
        a.Agrees package ((q.job a package).runOn t) ((q.job a package).runOn x) := by
  by_cases valid : canNameFile package = true
  · obtain ⟨read, reach'⟩ := get?_of_leaves valid reach outside left
    refine ⟨read, ?_⟩
    rintro r rfl source
    have restarts := restarts_record (r := { r with package }) reach.sound source left
    exact agrees_record valid reach reach' outside restarts read
  · refine ⟨.inl (by rw [get?_of_invalid valid, get?_of_invalid valid]), ?_⟩
    rintro r rfl -
    have same := leaves_named valid left
    rw [same]
    exact ⟨fun _ => .rfl, rfl⟩

/-- An install is cut off after five bytes of the draft have been written. -/
theorem request_atomic_draft :
    let a : Archive := ⟨⟨"/versions"⟩, ⟨"/backups"⟩⟩
    let t := (((Tree.empty []).put ["versions"] .dir).put ["versions", "app"]
      (.file (Text.Utf8.encode (History.fresh "1").text))).put ["new"] (.file [1, 2, 3])
    let r : Receipt := ⟨"app", "2", none, none, true, ⟨"/new"⟩⟩
    let q := Request.record r
    let made := (a.makeVersionDir.runOn t).2
    let copied := ((a.backUp r).runOn made).2
    let locked := ((a.openLock "app").runOn copied).2
    let created := ((locked.create (a.draftPath "app")).toOption).getD locked
    let part := (Text.Utf8.encode ((History.fresh "1").install "2" (a.kept r)).text).take 5
    let x := ((created.append (a.draftPath "app") part).toOption).getD created
    ((a.InReach t "app" ∧ q.StaysOutside a "app" t ∧ (q.job a "app").Leaves t x) ∧
      (a.get? x "app" = a.get? t "app" ∨
          a.get? x "app" = a.get? ((q.job a "app").runOn t).2 "app") ∧
        ∀ r, q = .record r → ¬ a.at_ t <+: r.file.lead t.cwd →
          a.Agrees "app" ((q.job a "app").runOn t) ((q.job a "app").runOn x)) ∧
      ¬ a.at_ t <+: r.file.lead t.cwd ∧ x.content? ["versions", "app.tmp"] = some part ∧
      a.get? x "app" = some (.fresh "1") ∧
      (((q.job a "app").runOn x).1.toOption.map History.current) = some "2" := by
  intro a t r q made copied locked created part x
  have valid : canNameFile "app" = true := by decide +kernel
  have placed : t.place (a.historyPath "app") = .ok (.entry ["versions"] "app" false) :=
    eq_ok_of_toOption (by decide +kernel)
  have reach : a.InReach t "app" := inReach_of_placed valid (.inr rfl) placed
  have outside : q.StaysOutside a "app" t := by
    unfold Request.StaysOutside BacksUpOutside
    decide +kernel
  have granted {made : Except IoFault Tree} {old : Tree} (some_ : made.toOption.isSome = true) :
      made = .ok (made.toOption.getD old) := by
    cases made with
    | ok next => rfl
    | error e => cases some_
  have create : locked.create (a.draftPath "app") = .ok created := granted (by decide +kernel)
  have wrote : created.append (a.draftPath "app") part = .ok x := granted (by decide +kernel)
  have base : (a.base "app" "2").runOn locked = (.ok (.fresh "1"), locked) := by
    rw [runOn_base, show a.get? locked "app" = some (.fresh "1") by decide +kernel]
    rfl
  have left : (q.job a "app").Leaves t x := by
    show (a.record r).Leaves t x
    rw [record_eq]
    refine Job.leaves_bind.mpr (.inr ⟨(), t, runOn_checkName valid, ?_⟩)
    refine .later (show _ = some () by decide +kernel) ?_
    refine .later (show _ = some (a.backupPath "app" "2" ⟨"/new"⟩) by decide +kernel) ?_
    refine .later (show _ = some () by decide +kernel) ?_
    refine Job.leaves_bind.mpr (.inr ⟨.fresh "1", locked, base, ?_⟩)
    refine .first (Job.leaves_bind.mpr (.inr ⟨[], created, ?_, .first ?_⟩))
    · rw [Job.runOn_attempt, Op.apply, create]
      rfl
    · exact Job.leaves_attempt.mpr (.writing (List.take_prefix 5 _) wrote)
  exact ⟨⟨⟨reach, outside, left⟩, request_atomic reach outside left⟩, by decide +kernel⟩

/-- The path of a history steps back out of a directory that is missing. Cut off after it has made
that directory, an install leaves a history that could not be read before and that the whole install
replaces. -/
theorem not_atomic_throughMissing :
    let a : Archive := ⟨⟨"/missing/../versions"⟩, ⟨"/backups"⟩⟩
    let t := (((Tree.empty []).put ["versions"] .dir).put ["versions", "app"]
      (.file (Text.Utf8.encode (History.fresh "1").text))).put ["new"] (.file [1, 2, 3])
    let r : Receipt := ⟨"app", "2", none, none, true, ⟨"/new"⟩⟩
    let q := Request.record r
    let x := (a.makeVersionDir.runOn t).2
    t.Sound ∧ q.StaysOutside a "app" t ∧ ¬ a.at_ t <+: r.file.lead t.cwd ∧
      (q.job a "app").Leaves t x ∧ a.get? x "app" = some (.fresh "1") ∧
      a.get? x "app" ≠ a.get? t "app" ∧
      a.get? x "app" ≠ a.get? ((q.job a "app").runOn t).2 "app" := by
  intro a t r q x
  have outside : q.StaysOutside a "app" t := by
    unfold Request.StaysOutside BacksUpOutside
    decide +kernel
  have left : (q.job a "app").Leaves t x := by
    show (a.record r).Leaves t x
    rw [record_eq]
    refine Job.leaves_bind.mpr (.inr ⟨(), t, runOn_checkName (by decide +kernel), ?_⟩)
    exact .first (Job.leaves_runOn _ _)
  exact ⟨.inr rfl, outside, by decide +kernel, left, by decide +kernel⟩

end Archive
end OtaAgent
