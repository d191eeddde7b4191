import OtaAgent.Journal.File
import OtaAgent.Proofs.Files.Resolving

set_option autoImplicit false

namespace OtaAgent

namespace LogFile

open Files

variable (log : LogFile)

/-- The log is where it was opened, and a file can be written beside it. -/
structure Writable (t : Tree) : Prop where
  there : ∃ content, t.fileAt log.path = .ok (log.at_, content)
  beside : ∃ place, t.target log.sealPath = .ok place

/-- An empty log that lies alone in the root. -/
theorem writable_alone :
    Writable ⟨⟨"/l.log"⟩, ["l.log"]⟩ ⟨[(["l.log"], .file [])], [], false⟩ where
  there := ⟨[], rfl⟩
  beside := by
    have beside : sealPath ⟨⟨"/l.log"⟩, ["l.log"]⟩ = ⟨"/l.log.hash"⟩ := rfl
    rw [beside]
    exact ⟨(["l.log.hash"], none), rfl⟩

def Sealed (t : Tree) : Prop :=
  ∃ content, t.read log.path = .ok content ∧
    t.read log.sealPath = .ok (Text.Utf8.encode (log.sealText content))

variable {log} {t : Tree}

theorem sealPath_lead_ne (cwd : Location) : log.sealPath.lead cwd ≠ log.path.lead cwd :=
  log.path.lead_suffixed_ne cwd (by decide) (by decide)

namespace Writable

variable (writable : log.Writable t) (lines : List String)

include writable

theorem exists_read : ∃ content, t.read log.path = .ok content := by
  obtain ⟨content, found⟩ := writable.there
  exact ⟨content, by rw [Tree.read, found]; rfl⟩

theorem at_eq_lead : log.at_ = log.path.lead t.cwd := by
  obtain ⟨content, found⟩ := writable.there
  exact (Tree.fileAt_lead found).1

/-- Lines that are added to the log take no directory away and change nothing but the log. -/
theorem frame : t.KeepsDirs (log.write t lines) ∧
    (∃ content, (log.write t lines).node? log.at_ = some (.file content)) ∧
    ∀ loc, loc ≠ log.at_ → (log.write t lines).node? loc = t.node? loc := by
  obtain ⟨content, found⟩ := writable.there
  have isFile := (Tree.fileAt_lead found).2
  have below : log.at_ ≠ [] := by
    intro top
    rw [top] at isFile
    cases isFile
  have wrote : log.write t lines =
      t.put log.at_ (.file (content ++ lines.flatMap Text.Utf8.encode)) := by
    rw [LogFile.write, isFile]
  rw [wrote]
  refine ⟨Tree.keepsDirs_put below (by simp [isFile]),
    ⟨content ++ lines.flatMap Text.Utf8.encode, ?_⟩, fun loc other => ?_⟩
  · rw [Tree.node?_put t _ _ _ below, if_pos rfl]
  · rw [Tree.node?_put t _ _ _ below, if_neg other]

/-- The log is as writable after lines were added to it. -/
theorem write : log.Writable (log.write t lines) := by
  obtain ⟨keeps, ⟨content, isFile⟩, others⟩ := writable.frame lines
  obtain ⟨held, before⟩ := writable.exists_read
  obtain ⟨⟨parent, name, placed⟩, -⟩ := Tree.placed_of_read before
  have at_ := writable.at_eq_lead.trans (Tree.place_entry placed).symm
  obtain ⟨⟨loc, _⟩, aimed⟩ := writable.beside
  obtain ⟨dir, entry, placed', isDir, rfl⟩ := Tree.placed_of_target aimed
  obtain ⟨lead, -, free, -⟩ := Tree.target_lead aimed
  refine ⟨⟨content, ?_⟩, Tree.exists_target_of_placed (Tree.place_of_keepsDirs keeps placed')
    (keeps.dirs _ isDir) ?_⟩
  · rw [at_] at isFile ⊢
    exact Tree.fileAt_of_placed (Tree.place_of_keepsDirs keeps placed) isFile
  · rw [others _ (by rw [lead, writable.at_eq_lead]; exact sealPath_lead_ne _)]
    exact free

/-- Adding lines to the log leaves its seal as it was. -/
theorem read_sealPath_write : (log.write t lines).read log.sealPath = t.read log.sealPath := by
  obtain ⟨keeps, -, others⟩ := writable.frame lines
  obtain ⟨⟨loc, _⟩, aimed⟩ := writable.beside
  obtain ⟨dir, entry, placed, -, rfl⟩ := Tree.placed_of_target aimed
  rw [Tree.read_of_place placed, Tree.read_of_place (Tree.place_of_keepsDirs keeps placed), others]
  rw [Tree.place_entry placed, writable.at_eq_lead]
  exact sealPath_lead_ne _

/-- A log that can be sealed is. -/
theorem finish : ∃ next, log.finish.runOn t = (.ok (), next) ∧ log.Sealed next := by
  obtain ⟨content, held⟩ := writable.exists_read
  obtain ⟨place, aimed⟩ := writable.beside
  obtain ⟨made, created⟩ : ∃ made, t.create log.sealPath = .ok made :=
    ⟨_, by rw [Tree.create, aimed]; rfl⟩
  obtain ⟨next, appended⟩ :=
    Tree.exists_append_of_create created (Text.Utf8.encode (log.sealText content))
  have keeps := (Tree.keepsDirs_create created).trans (Tree.keepsDirs_append appended)
  have second := Tree.keeps_append appended
  obtain ⟨empty, before, after⟩ := Tree.content?_of_append appended
  rw [(Tree.keeps_create created).cwd] at second before after
  -- Both operations touch the seal only, so the log still holds what was read for the digest.
  have untouched := (Tree.keeps_create created).trans second
  refine ⟨next, ?_, content, ?_, ?_⟩
  · simp [LogFile.finish, Job.runOn_bind, Op.apply, held, created, appended, settle, mapError_ok]
  · refine Tree.read_of_keepsDirs keeps held ?_
    rw [untouched.content _ (Ne.symm (sealPath_lead_ne _))]
    exact (Tree.placed_of_read held).2
  · obtain rfl : [] = empty := Option.some.inj ((Tree.content?_of_create created).symm.trans before)
    obtain ⟨dir, entry, placed⟩ := Tree.place_of_create created
    rw [← Tree.place_entry placed, List.nil_append] at after
    exact Tree.read_of_placed (Tree.place_of_keepsDirs keeps placed) after

end Writable

end LogFile
end OtaAgent
