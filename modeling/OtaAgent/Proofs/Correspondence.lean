import Mathlib.Data.List.Forall2
import Mathlib.Data.List.Perm.Basic
import OtaAgent.Event
import OtaAgent.Hook
import OtaAgent.Proofs.Table

set_option autoImplicit false

namespace OtaAgent

/-- What the versions and the files of a device are called on another one. -/
structure Correspondence where
  version : String → String → Prop
  file : Path → Path → Prop
  /-- The packages whose versions have other names. -/
  known : String → Prop
  /-- Two versions are the same on both devices or on neither. -/
  version_iff {v v' w w' : String} (first : version v v') (second : version w w') :
    v = w ↔ v' = w'

namespace Correspondence

variable (C : Correspondence)

structure Releases (r r' : Release) : Prop where
  known : C.known r.name
  name : r'.name = r.name
  version : C.version r.version r'.version

structure Offers (o o' : Offer) : Prop where
  file : C.file o.file o'.file
  digest : o'.digest = o.digest
  downloaded : o'.downloaded = o.downloaded

/-- The orders offer the same for every version, in whatever order. -/
structure Orders (o o' : Order) : Prop where
  release : C.Releases o.release o'.release
  handler : o'.handler = o.handler
  offers {v v' : String} (version : C.version v v') :
    Option.Rel C.Offers (o.offer? v) (o'.offer? v')
  rollbackVersion : Option.Rel C.version o.rollbackVersion o'.rollbackVersion
  rollbackVersions : List.Forall₂ C.version o.rollbackVersions o'.rollbackVersions

inductive Events : Event → Event → Prop
  | query (handler package : String) (replyId : Option String) :
      Events (.query handler package replyId) (.query handler package replyId)
  | offered (handler : String) {r r' : Release} (releases : C.Releases r r') :
      Events (.offered handler r) (.offered handler r')
  | prepare {o o' : Order} (orders : C.Orders o o') : Events (.prepare o) (.prepare o')
  | install {o o' : Order} (orders : C.Orders o o') : Events (.install o) (.install o')
  | confirmed (handler : String) {r r' : Release} (releases : C.Releases r r') :
      Events (.confirmed handler r) (.confirmed handler r')
  | downloading (handler : String) {r r' : Release} (releases : C.Releases r r')
      (downloadedBytes totalBytes : Nat) :
      Events (.downloading handler r downloadedBytes totalBytes)
        (.downloading handler r' downloadedBytes totalBytes)
  | unhandled (kind : String) : Events (.unhandled kind) (.unhandled kind)

structure Updates (u u' : Update) : Prop where
  release : C.Releases u.release u'.release
  announced : C.version u.announced u'.announced
  file : C.file u.file u'.file
  received : u'.received = u.received
  downloaded : u'.downloaded = u.downloaded
  isBackup : u'.isBackup = u.isBackup
  transferred : u'.transferred = u.transferred
  prepared : u'.prepared = u.prepared
  installed : u'.installed = u.installed
  fallback : Option.Rel C.version u.fallback u'.fallback

structure Receipts (r r' : Receipt) : Prop where
  known : C.known r.package
  package : r'.package = r.package
  version : C.version r.version r'.version
  received : r'.received = r.received
  computed : r'.computed = r.computed
  downloaded : r'.downloaded = r.downloaded
  file : C.file r.file r'.file

structure Backups (b b' : Backup) : Prop where
  downloaded : b'.downloaded = b.downloaded
  digest : b'.digest = b.digest
  file : C.file b.file b'.file

structure Entries (e e' : String × Backup) : Prop where
  version : C.version e.1 e'.1
  backup : C.Backups e.2 e'.2

/-- The histories keep the same of the same versions, each in the order of its own names. -/
structure Histories (h h' : History) : Prop where
  current : C.version h.current h'.current
  backups : ∃ entries, List.Forall₂ C.Entries h.backups entries ∧ entries.Perm h'.backups
  sorted : h.backups.Sorted
  sorted' : h'.backups.Sorted

section Histories

variable {C} {h h' : History} {v v' : String} {b b' : Backup}

theorem version_bne {w w' : String} (first : C.version v v') (second : C.version w w') :
    (v != w) = (v' != w') := by
  rw [Bool.eq_iff_iff, bne_iff_ne, bne_iff_ne, ne_eq, ne_eq, C.version_iff first second]

theorem get?_entries {t t' : Table Backup} (entries : List.Forall₂ C.Entries t t')
    (version : C.version v v') : Option.Rel C.Backups (t.get? v) (t'.get? v') := by
  induction entries with
  | nil => exact .none
  | @cons e e' rest rest' first _ ih =>
    obtain ⟨k, b⟩ := e
    obtain ⟨k', b'⟩ := e'
    have same : v = k ↔ v' = k' := C.version_iff version first.version
    rw [Table.get?, Table.get?]
    by_cases here : v = k
    · rw [if_pos here, if_pos (same.mp here)]
      exact .some first.backup
    · rw [if_neg here, if_neg (mt same.mpr here)]
      exact ih

theorem Histories.get? (histories : C.Histories h h') (version : C.version v v') :
    Option.Rel C.Backups (h.backups.get? v) (h'.backups.get? v') := by
  obtain ⟨entries, same, perm⟩ := histories.backups
  rw [Table.get?_of_perm histories.sorted'.distinct perm.symm]
  exact get?_entries same version

theorem Histories.contains (histories : C.Histories h h') (version : C.version v v') :
    h'.backups.contains v' = h.backups.contains v := by
  unfold Table.contains
  have found := histories.get? version
  generalize h.backups.get? v = x at found ⊢
  generalize h'.backups.get? v' = y at found ⊢
  cases found <;> rfl

theorem Histories.isConsistent (histories : C.Histories h h') :
    h'.isConsistent = h.isConsistent := by
  obtain ⟨entries, same, perm⟩ := histories.backups
  have empty : h'.backups.isEmpty = h.backups.isEmpty := by
    rw [← perm.isEmpty_eq]
    generalize h.backups = table at same ⊢
    cases same <;> rfl
  rw [History.isConsistent, History.isConsistent, histories.contains histories.current, empty]

theorem histories_fresh (version : C.version v v') :
    C.Histories (.fresh v) (.fresh v') where
  current := version
  backups := ⟨[], .nil, .nil⟩
  sorted := .nil
  sorted' := .nil

theorem Histories.goBackTo (histories : C.Histories h h') (version : C.version v v') :
    C.Histories (h.goBackTo v) (h'.goBackTo v') where
  current := version
  backups := histories.backups
  sorted := histories.sorted
  sorted' := histories.sorted'

theorem Histories.install (histories : C.Histories h h') (version : C.version v v')
    (backups : C.Backups b b') : C.Histories (h.install v b) (h'.install v' b') where
  current := version
  backups := by
    obtain ⟨entries, same, perm⟩ := histories.backups
    have others : List.Forall₂ C.Entries (h.backups.filter (·.1 ≠ v))
        (entries.filter (·.1 ≠ v')) := by
      refine List.rel_filter (fun e e' first => ?_) same
      simp [C.version_iff first.version version]
    have joined : List.Forall₂ C.Entries ((v, b) :: h.backups.filter (·.1 ≠ v))
        ((v', b') :: entries.filter (·.1 ≠ v')) := .cons ⟨version, backups⟩ others
    obtain ⟨inserted, same, perm'⟩ :=
      List.perm_comp_forall₂ (Table.perm_insert histories.sorted v b) joined
    refine ⟨inserted, same, perm'.trans (((perm.filter _).cons _).trans ?_)⟩
    exact (Table.perm_insert histories.sorted' v' b').symm
  sorted := histories.sorted.insert v b
  sorted' := histories.sorted'.insert v' b'

end Histories

end Correspondence
end OtaAgent
