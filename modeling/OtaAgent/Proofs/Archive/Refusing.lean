import OtaAgent.Proofs.Archive.Isolation
import OtaAgent.Proofs.Files.Opened

set_option autoImplicit false

namespace OtaAgent

open Files

/-- The error is one of putting a history in its place. -/
def Error.isOfReplacing : Error → Bool
  | archive (.lockNotOpened ..) => true
  | archive (.notCreated ..) => true
  | archive (.notWritten ..) => true
  | archive (.notReplaced ..) => true
  | _ => false

namespace Files

variable {cwd : Location} {p : Path} {content : Bytes}

/-- From the working directory `cwd`, the file at `p` can be read and holds `content`. -/
structure Tree.Reads (cwd : Location) (p : Path) (content : Bytes) (t : Tree) : Prop where
  cwd : t.cwd = cwd
  sound : t.Sound
  read : t.read p = .ok content

theorem Tree.Reads.of_keepsDirs {t next : Tree} {held : Bytes} (reads : t.Reads cwd p content)
    (keepsDirs : t.KeepsDirs next) (there : next.content? (p.lead cwd) = some held) :
    next.Reads cwd p held where
  cwd := keepsDirs.cwd.trans reads.cwd
  sound := reads.sound.of_keepsDirs keepsDirs
  read := Tree.read_of_keepsDirs keepsDirs reads.read (by rwa [reads.cwd])

theorem Tree.Reads.content? {t : Tree} (reads : t.Reads cwd p content) :
    t.content? (p.lead cwd) = some content := by
  rw [← reads.cwd]
  exact (Tree.placed_of_read reads.read).2

namespace Job

variable {ε : Type} {fault : IoFault → ε}

/-- A file is read as before after an operation that changes others. -/
theorem maintains_reads {op : Op} (builds : op.Builds) (apart : ¬ op.Touches cwd (p.lead cwd)) :
    Maintains (Tree.Reads cwd p content) (attempt op fault) := by
  intro t reads
  rw [runOn_attempt]
  have keeps := op.keeps t
  rw [reads.cwd] at keeps
  exact reads.of_keepsDirs (op.keepsDirs builds reads.sound)
    ((keeps.content _ apart).trans reads.content?)

/-- A file is read as before after one is opened that may be it. -/
theorem maintains_reads_touch (q : Path) :
    Maintains (Tree.Reads cwd p content) (attempt (.touch q) fault) := by
  by_cases same : p.lead cwd = q.lead cwd
  · intro t reads
    rw [runOn_attempt]
    cases touched : t.touch q with
    | error e => simpa [Op.apply, settle, touched]
    | ok next =>
      have opened := Tree.content?_of_touch touched
      rw [reads.cwd, ← same, reads.content?] at opened
      have keepsDirs := Tree.keepsDirs_touch touched
      have reads' : next.Reads cwd p content := reads.of_keepsDirs keepsDirs opened
      simpa [Op.apply, settle, touched]
  · exact maintains_reads trivial same

end Job
end Files

namespace Archive

variable {a : Archive} {t made copied next : Tree} {r : Receipt} {e : Error} {p : Path}
  {cwd : Location} {content : Bytes} {other package : String} {backup : Path}

def backupAt (a : Archive) (r : Receipt) (cwd : Location) : Location :=
  (a.backupPath r.package r.version r.file).lead cwd

/-- The install of `r` was refused for `e` when its file had been backed up already, over the one
that `p` leads to. -/
structure Overwrites (a : Archive) (t : Tree) (r : Receipt) (e : Error) (p : Path) (next : Tree) :
    Prop where
  late : e.isOfReplacing = true
  here : p.lead t.cwd = a.backupAt r t.cwd
  copied : (a.backupPath r.package r.version r.file).same r.file = false
  read : ∃ held, next.read p = .ok held ∧
    (r.file.lead t.cwd ≠ a.backupAt r t.cwd → t.content? (r.file.lead t.cwd) = some held)

theorem replacing_reads (apart : p.lead cwd ≠ (a.draftPath package).lead cwd) :
    a.Replacing (fun _ => Job.Maintains (Tree.Reads cwd p content))
      (fun _ => Job.FailsMaintaining (Tree.Reads cwd p content)) package where
  lock _ := Job.maintains_reads_touch _
  create _ := Job.maintains_reads trivial apart
  write _ _ := Job.maintains_reads trivial apart
  rename _ := Job.failsMaintaining_attempt fun _ => ⟨_, rfl⟩

theorem backingUp_reads :
    a.BackingUp (fun _ => Job.Maintains (Tree.Reads cwd p content))
      (fun _ => Job.FailsMaintaining (Tree.Reads cwd p content)) r where
  makeDirs _ _ _ := Job.maintains_reads trivial id
  copy _ := Job.failsMaintaining_attempt fun _ => ⟨_, rfl⟩

theorem isOfReplacing_of_replace {h : History}
    (ran : (a.replace package h).runOn t = (.error e, next)) : e.isOfReplacing = true := by
  unfold replace at ran
  rcases Job.runOn_bind_error ran with created | ⟨_, _, -, ran⟩
  · obtain ⟨_, rfl⟩ := Job.runOn_attempt_error created
    rfl
  rcases Job.runOn_bind_error ran with written | ⟨_, _, -, ran⟩
  · obtain ⟨_, rfl⟩ := Job.runOn_attempt_error written
    rfl
  rcases Job.runOn_bind_error ran with renamed | ⟨_, _, -, ran⟩
  · obtain ⟨_, rfl⟩ := Job.runOn_attempt_error renamed
    rfl
  cases ran

/-- What is refused after the file has been backed up is to put the history in place. -/
theorem isOfReplacing_of_conclude (ran : (a.conclude r backup).runOn t = (.error e, next)) :
    e.isOfReplacing = true := by
  unfold conclude at ran
  rcases Job.runOn_bind_error ran with locked | ⟨_, _, -, ran⟩
  · rcases Job.runOn_bind_error locked with touched | ⟨_, _, -, done⟩
    · obtain ⟨_, rfl⟩ := Job.runOn_attempt_error touched
      rfl
    · cases done
  rcases Job.runOn_bind_error ran with begun | ⟨_, _, -, ran⟩
  · rw [runOn_base] at begun
    cases begun
  rcases Job.runOn_bind_error ran with replaced | ⟨_, _, -, ran⟩
  · exact isOfReplacing_of_replace replaced
  · cases ran

/-- A file that is not in its place among the backups has been copied there, after no more than
directories were made. -/
theorem copied_of_backUp (other : (a.backupPath r.package r.version r.file).same r.file = false)
    (ran : (a.backUp r).runOn t = (.ok backup, copied)) :
    ∃ made, t.Keeps made (fun _ => False) ∧
      made.copy r.file (a.backupPath r.package r.version r.file) = .ok copied := by
  unfold backUp at ran
  simp only [other, Bool.false_eq_true, if_false] at ran
  split at ran
  · obtain ⟨_, made, make, ran⟩ := Job.runOn_bind_ok ran
    obtain ⟨_, _, copy, ran⟩ := Job.runOn_bind_ok ran
    cases ran
    exact ⟨made, (Job.within_attempt fun _ => False.elim).keeps rfl make,
      Job.settle_ok (Job.runOn_attempt_ok copy)⟩
  · obtain ⟨_, _, copy, ran⟩ := Job.runOn_bind_ok ran
    cases ran
    exact ⟨t, .refl t _, Job.settle_ok (Job.runOn_attempt_ok copy)⟩

/-- When the file has been backed up, a file is read as before, or it is the one that was gone
over. -/
theorem reads_of_backUp (reads : t.Reads cwd p content)
    (ran : (a.backUp r).runOn t = (.ok backup, copied)) :
    copied.Reads cwd p content ∨
      p.lead cwd = a.backupAt r cwd ∧
        (a.backupPath r.package r.version r.file).same r.file = false ∧
        ∃ held, copied.Reads cwd p held ∧
          (r.file.lead cwd ≠ a.backupAt r cwd → t.content? (r.file.lead cwd) = some held) := by
  have keepsDirs := (builds_backUp r).keepsDirs reads.sound ran
  by_cases here : p.lead cwd = a.backupAt r cwd
  · cases same : (a.backupPath r.package r.version r.file).same r.file with
    | true =>
      unfold backUp at ran
      simp only [same, if_true] at ran
      cases ran
      exact .inl reads
    | false =>
      obtain ⟨made, keeps, copy⟩ := copied_of_backUp same ran
      obtain ⟨held, there, source⟩ := Tree.content?_of_copy copy
      rw [keeps.cwd, reads.cwd] at there source
      refine .inr ⟨here, rfl, held, reads.of_keepsDirs keepsDirs (here ▸ there), fun apart => ?_⟩
      rw [← keeps.content _ id]
      exact source apart
  · have keeps := (within_backUp r).keeps reads.cwd ran
    exact .inl (reads.of_keepsDirs keepsDirs ((keeps.content _ here).trans reads.content?))

/-- A file is read as before an install that is refused, unless it is its draft or the backup that
was gone over. -/
theorem read_of_record_error (sound : t.Sound) (held : t.read p = .ok content)
    (apart : p.lead t.cwd ≠ (a.draftPath r.package).lead t.cwd)
    (ran : (a.record r).runOn t = (.error e, next)) :
    next.read p = .ok content ∨ a.Overwrites t r e p next := by
  have reads : t.Reads t.cwd p content := ⟨rfl, sound, held⟩
  rw [record_eq] at ran
  rcases Job.runOn_bind_error ran with named | ⟨_, _, named, ran⟩
  · have same := (still_checkName r.package).looks t
    rw [named] at same
    obtain rfl : next = t := same
    exact .inl held
  obtain ⟨valid, rfl⟩ := canNameFile_of_runOn named
  have making : Job.Maintains (Tree.Reads t.cwd p content) a.makeVersionDir :=
    Job.rules_maintains.makeVersionDir fun _ => Job.maintains_reads trivial id
  rcases Job.runOn_bind_error ran with refused | ⟨_, made, make, ran⟩
  · exact .inl (making.failsMaintaining t e next reads refused).read
  have first : t.Keeps made fun _ => False := within_makeVersionDir.keeps rfl make
  have reads' : made.Reads t.cwd p content := by
    have kept := making t reads
    rwa [make] at kept
  rcases Job.runOn_bind_error ran with refused | ⟨_, copied, backUp, ran⟩
  · have backing : Job.FailsMaintaining (Tree.Reads t.cwd p content) (a.backUp r) :=
      Job.rules_failsMaintaining.backUp backingUp_reads
    exact .inl (backing made e next reads' refused).read
  have concluding {content : Bytes} (reads : copied.Reads t.cwd p content) :
      next.Reads t.cwd p content :=
    Job.rules_failsMaintaining.conclude (replacing_reads apart) _ copied e next reads ran
  rcases reads_of_backUp reads' backUp with same | ⟨here, other, held, copied_, source⟩
  · exact .inl (concluding same).read
  · refine .inr ⟨isOfReplacing_of_conclude ran, here, other, held, (concluding copied_).read, ?_⟩
    intro apart
    rw [← first.content _ id]
    exact source apart

/-- Every history is read as before an install that is refused, unless its file is the draft, or the
file is backed up in its place. -/
theorem get?_of_record_refused (reach : a.InReach t other) (noDraft : r.package ++ ".tmp" ≠ other)
    (outside : a.backupAt r t.cwd ≠ a.historyAt t other)
    (ran : (a.record r).runOn t = (.error e, next)) : a.get? next other = a.get? t other := by
  by_cases valid : canNameFile other = true
  · by_cases same : r.package = other
    · subst same
      exact (get?_of_record_error valid reach outside ran).1
    · have stands : a.Stands t.cwd other (a.recorded? t other) t := ⟨rfl, reach, rfl⟩
      have after := maintains_record valid same noDraft outside t stands
      rw [ran] at after
      rw [reach.get?_eq valid, after.reach.get?_eq valid, after.recorded]
  · have unread (t : Tree) : a.get? t other = none := by
      cases found : a.get? t other with
      | none => rfl
      | some h => exact absurd (canNameFile_of_get? found) valid
    rw [unread, unread]

/-- An install that is refused leaves the history of every package as it is read, its own included,
and every file that can be read, backups that histories name among them, but for the draft and for
one backup: the one in the place of the new one, which has gone over it when the error is that the
history cannot be put in its place. -/
theorem record_refused (sound : t.Sound) (ran : (a.record r).runOn t = (.error e, next)) :
    (∀ other, a.InReach t other → r.package ++ ".tmp" ≠ other →
      a.backupAt r t.cwd ≠ a.historyAt t other → a.get? next other = a.get? t other) ∧
    ∀ p content, t.read p = .ok content → p.lead t.cwd ≠ (a.draftPath r.package).lead t.cwd →
      next.read p = .ok content ∨ a.Overwrites t r e p next :=
  ⟨fun _ reach noDraft outside => get?_of_record_refused reach noDraft outside ran,
    fun _ _ held apart => read_of_record_error sound held apart ran⟩

/-- A version is recorded again while its lock cannot be opened. -/
theorem record_refused_again :
    let a : Archive := ⟨⟨"/versions"⟩, ⟨"/backups"⟩⟩
    let r : Receipt := ⟨"app", "1", none, none, true, ⟨"/new"⟩⟩
    let b : Backup := ⟨true, "", ⟨"/backups/app/1/new"⟩⟩
    let t : Tree := ⟨[(["versions"], .dir), (["versions", ".app.lock"], .dir),
      (["versions", "app"], .file (Text.Utf8.encode (History.mk "1" [("1", b)]).text)),
      (["backups"], .dir), (["backups", "app"], .dir), (["backups", "app", "1"], .dir),
      (["backups", "app", "1", "new"], .file [1]), (["new"], .file [2])], [], false⟩
    let next := ((a.record r).runOn t).2
    ∃ e, t.Sound ∧ (a.record r).runOn t = (.error e, next) ∧
      (∀ other, a.InReach t other → r.package ++ ".tmp" ≠ other →
        a.backupAt r t.cwd ≠ a.historyAt t other → a.get? next other = a.get? t other) ∧
      ∀ p content, t.read p = .ok content → p.lead t.cwd ≠ (a.draftPath r.package).lead t.cwd →
        next.read p = .ok content ∨ a.Overwrites t r e p next := by
  intro a r b t next
  have refused : ((a.record r).runOn t).1.toOption = none := by decide +kernel
  have sound : t.Sound := .inr rfl
  cases given : ((a.record r).runOn t).1 with
  | ok h =>
    rw [given] at refused
    cases refused
  | error e =>
    have ran : (a.record r).runOn t = (.error e, next) := Prod.ext given rfl
    exact ⟨e, sound, ran, record_refused sound ran⟩

/-- The backup of a version is gone over by the file of an install that is refused, and its history
goes on to name it. -/
theorem backup_lost_of_refused :
    let a : Archive := ⟨⟨"/versions"⟩, ⟨"/backups"⟩⟩
    let r : Receipt := ⟨"app", "1", none, none, true, ⟨"/new"⟩⟩
    let b : Backup := ⟨true, "", ⟨"/backups/app/1/new"⟩⟩
    let h : History := ⟨"1", [("1", b)]⟩
    let t : Tree := ⟨[(["versions"], .dir), (["versions", ".app.lock"], .dir),
      (["versions", "app"], .file (Text.Utf8.encode h.text)),
      (["backups"], .dir), (["backups", "app"], .dir), (["backups", "app", "1"], .dir),
      (["backups", "app", "1", "new"], .file [1]), (["new"], .file [2])], [], false⟩
    let next := ((a.record r).runOn t).2
    ((a.record r).runOn t).1.toOption = none ∧ a.get? t "app" = some h ∧
      a.get? next "app" = some h ∧ h.backups.get? "1" = some b ∧
      t.read b.file = .ok [1] ∧ next.read b.file = .ok [2] := by
  intro a r b h t next
  exact ⟨by decide +kernel, by decide +kernel, by decide +kernel, by decide +kernel,
    eq_ok_of_toOption (by decide +kernel), eq_ok_of_toOption (by decide +kernel)⟩

/-- A version is not recorded if its name is too long for a directory, unless its file is said to
lie in one of that name. -/
theorem record_refused_of_long (isName : Path.IsName r.version)
    (long : maxName < r.version.utf8ByteSize) (elsewhere : r.version ∉ r.file.names) (t : Tree) :
    ∃ e, ((a.record r).runOn t).1 = .error e := by
  cases ran : (a.record r).runOn t with
  | mk result next =>
    cases result with
    | error e => exact ⟨e, rfl⟩
    | ok history =>
      rw [record_eq] at ran
      obtain ⟨_, _, named, ran⟩ := Job.runOn_bind_ok ran
      obtain ⟨_, _, _, ran⟩ := Job.runOn_bind_ok ran
      obtain ⟨_, copied, backUp, -⟩ := Job.runOn_bind_ok ran
      have upper := isName_of_canNameFile (canNameFile_of_runOn named).1
      have among : r.version ∈ (a.backupPath r.package r.version r.file).names := by
        rw [backupPath, Path.names_join _ (isName_backup upper), Path.names_join _ isName]
        simp
      have other : (a.backupPath r.package r.version r.file).same r.file = false := by
        rw [Bool.eq_false_iff, ne_eq, Path.same_iff]
        rintro ⟨-, names⟩
        have kept : r.version ∈ (a.backupPath r.package r.version r.file).names.filter (· ≠ ".") :=
          List.mem_filter.mpr ⟨among, decide_eq_true isName.notHere⟩
        rw [names] at kept
        exact elsewhere (List.mem_filter.mp kept).1
      obtain ⟨made, -, copy⟩ := copied_of_backUp other backUp
      unfold Tree.copy at copy
      split at copy
      · cases copy
      · cases copy
      · obtain ⟨emptied, created, -⟩ := exists_ok_of_bind copy
        obtain ⟨parent, name, placed⟩ := Tree.place_of_create created
        obtain ⟨e, refused⟩ := Tree.place_of_long (t := made) long among
        rw [refused] at placed
        cases placed

end Archive
end OtaAgent
