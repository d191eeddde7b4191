import OtaAgent.Proofs.Archive.Reading
import OtaAgent.Proofs.Digest

set_option autoImplicit false

namespace OtaAgent

open Files

/-- The digest of a file that can be read. -/
theorem Files.Job.runOn_fileDigest {p : Path} {t : Tree} {content : Bytes}
    (held : t.read p = .ok content) :
    ((fileDigest p).runOn t).1 = .ok (Digest.ofContent content) := by
  obtain ⟨⟨loc, bytes⟩, found, -⟩ := exists_ok_of_map held
  have opened : t.stat p = .ok (.file bytes) := by rw [Tree.stat, found]
  unfold fileDigest
  rw [runOn_bind, runOn_attempt]
  simp only [Op.apply, opened, Except.map, mapError_ok, runOn_bind, runOn_attempt, held,
    runOn_pure]

/-- The digest that is recorded is that of `content` if the one received is, or else the one
computed. -/
theorem Receipt.digest?_eq {r : Receipt} {content : Bytes}
    (received : ∀ text, r.received = some text →
      Digest.parse? text = some (.ofContent content))
    (computed : r.received = none → r.computed = some (Digest.ofContent content).text) :
    r.digest? = some (.ofContent content) := by
  unfold digest?
  cases sent : r.received with
  | some text => simp [received text sent]
  | none => simp [computed sent, Digest.parse?_text]

namespace Archive

variable {a : Archive} {t next : Tree} {r : Receipt} {content : Bytes}

/-- What is kept of the version that `r` speaks of is as `r` says, and its file holds `content`. -/
structure Holds (a : Archive) (t : Tree) (r : Receipt) (content : Bytes) : Prop where
  kept : a.backup? t r.package r.version = some (a.kept r)
  read : t.read (a.backupPath r.package r.version r.file) = .ok content

/-- What is kept of a version is there, and the digest that was recorded is that of its file. -/
def Sealed (a : Archive) (t : Tree) (package version : String) : Prop :=
  ∃ backup content, a.backup? t package version = some backup ∧ t.read backup.file = .ok content ∧
    Digest.parse? backup.digest = some (.ofContent content)

/-- The file of `r` is there, and can be copied to where it is backed up: it lies there already, or
elsewhere and does not get in the way of the history. -/
structure CanKeep (a : Archive) (t : Tree) (r : Receipt) : Prop where
  there : ∃ content, t.read r.file = .ok content
  place : r.file = a.backupPath r.package r.version r.file ∨
    (a.backupPath r.package r.version r.file).lead t.cwd ≠ r.file.lead t.cwd
  outside : ¬ a.Belongs t r.package ((a.backupPath r.package r.version r.file).lead t.cwd)

/-- A file that is backed up can be read where it is backed up. -/
theorem read_of_backUp {backup : Path} (sound : t.Sound) (canKeep : a.CanKeep t r)
    (held : t.read r.file = .ok content) (ran : (a.backUp r).runOn t = (.ok backup, next)) :
    next.read (a.backupPath r.package r.version r.file) = .ok content := by
  unfold backUp at ran
  dsimp only at ran
  split at ran
  · rename_i same
    cases ran
    rcases canKeep.place with here | apart
    · exact (congrArg t.read here.symm).trans held
    · exact absurd (Path.lead_eq_of_same same t.cwd) apart
  · rename_i other
    have apart : (a.backupPath r.package r.version r.file).lead t.cwd ≠ r.file.lead t.cwd := by
      rcases canKeep.place with here | apart
      · exact absurd (by rw [← here]; simp [Path.same]) other
      · exact apart
    have copied {t next : Tree} {backup : Path}
        (apart : (a.backupPath r.package r.version r.file).lead t.cwd ≠ r.file.lead t.cwd)
        (held : t.read r.file = .ok content)
        (ran : Job.runOn (do
          let _ ← Job.attempt (.copy r.file (a.backupPath r.package r.version r.file))
            (.file (.backUp r.file (a.backupPath r.package r.version r.file)))
          return a.backupPath r.package r.version r.file : FileJob Path) t = (.ok backup, next)) :
        next.read (a.backupPath r.package r.version r.file) = .ok content := by
      obtain ⟨_, _, copy, ran⟩ := Job.runOn_bind_ok ran
      cases ran
      exact Tree.read_of_copy apart.symm held (Job.settle_ok (Job.runOn_attempt_ok copy))
    split at ran
    · rename_i dir _
      obtain ⟨_, made, make, ran⟩ := Job.runOn_bind_ok ran
      have builds : Op.Builds (.makeDirs dir) := trivial
      have keepsDirs := (Job.builds_attempt builds).keepsDirs sound make
      have keeps : t.Keeps made fun _ => False :=
        (Job.within_attempt fun _ => False.elim).keeps rfl make
      have there := (keeps.content _ id).trans (Tree.placed_of_read held).2
      refine copied ?_ (Tree.read_of_keepsDirs keepsDirs held there) ran
      rwa [keeps.cwd]
    · exact copied apart held ran

theorem CanKeep.of_keeps (canKeep : a.CanKeep t r) (keepsDirs : t.KeepsDirs next)
    (keeps : t.Keeps next fun _ => False) : a.CanKeep next r where
  there := by
    obtain ⟨content, held⟩ := canKeep.there
    have there := (keeps.content _ id).trans (Tree.placed_of_read held).2
    exact ⟨content, Tree.read_of_keepsDirs keepsDirs held there⟩
  place := by
    rw [keeps.cwd]
    exact canKeep.place
  outside := by
    rw [belongs_of_at (at_of_cwd keeps.cwd), keeps.cwd]
    exact canKeep.outside

/-- What has been recorded can be read where it is backed up. -/
theorem read_of_record {h : History} (sound : t.Sound) (canKeep : a.CanKeep t r)
    (held : t.read r.file = .ok content) (ran : (a.record r).runOn t = (.ok h, next)) :
    next.read (a.backupPath r.package r.version r.file) = .ok content := by
  obtain ⟨valid, made, copied, locked, make, backUp, lock, -, replace⟩ := record_steps ran
  have isName := isName_of_canNameFile valid
  -- The file is as it was when it is copied.
  have firstDirs := builds_makeVersionDir.keepsDirs sound make
  have first : t.Keeps made fun _ => False := within_makeVersionDir.keeps rfl make
  have soundMade := sound.of_keepsDirs firstDirs
  have there := (first.content _ id).trans (Tree.placed_of_read held).2
  have backed := read_of_backUp soundMade (canKeep.of_keeps firstDirs first)
    (Tree.read_of_keepsDirs firstDirs held there) backUp
  -- Its copy is not touched from there on.
  have soundCopied := soundMade.of_keepsDirs ((builds_backUp r).keepsDirs soundMade backUp)
  have secondDirs := (builds_openLock _).keepsDirs soundCopied lock
  have lastDirs := (builds_replace _ _).keepsDirs (soundCopied.of_keepsDirs secondDirs) replace
  have second := (within_openLock (a := a) isName).keeps rfl lock
  have last := (within_replace (a := a) isName _).keeps rfl replace
  have cwd : copied.cwd = t.cwd := ((within_backUp r).keeps rfl backUp).cwd.trans first.cwd
  have outside := canKeep.outside
  rw [← belongs_of_at (at_of_cwd cwd), ← cwd] at outside
  refine Tree.read_of_keepsDirs (secondDirs.trans lastDirs) backed ?_
  rw [last.content, second.content]
  · exact (Tree.placed_of_read backed).2
  · exact fun scratch => outside (.inr scratch)
  · intro inside
    rw [belongs_of_at (at_of_cwd second.cwd)] at inside
    exact outside inside

/-- What is recorded of a version is there. -/
theorem holds_of_record {h : History} (sound : t.Sound) (canKeep : a.CanKeep t r)
    (held : t.read r.file = .ok content) (ran : (a.record r).runOn t = (.ok h, next)) :
    a.Holds next r content where
  kept := by
    obtain ⟨rfl, said, -⟩ := runOn_record (fun same => canKeep.outside (.inl same)) ran
    rw [backup?, (inReach_of_record sound ran).get?_eq (record_steps ran).1, said, Option.bind_some,
      History.install, Table.get?_insert, if_pos rfl]
  read := read_of_record sound canKeep held ran

/-- What is kept stays so as long as everything can be read as before. -/
theorem Holds.of_read (holds : a.Holds t r content)
    (kept : ∀ p content, t.read p = .ok content → next.read p = .ok content) :
    a.Holds next r content where
  kept := by
    obtain ⟨h, found, entry⟩ := Option.bind_eq_some_iff.mp holds.kept
    have still := get?_of_read found fun content => kept _ content
    exact Option.bind_eq_some_iff.mpr ⟨h, still, entry⟩
  read := kept _ _ holds.read

theorem Holds.sealed_ (holds : a.Holds t r content)
    (digest : r.digest? = some (.ofContent content)) :
    a.Sealed t r.package r.version := by
  refine ⟨a.kept r, content, holds.kept, holds.read, ?_⟩
  rw [Archive.kept, digest, Option.map_some, Option.getD_some, Digest.parse?_text]

end Archive
end OtaAgent
