import OtaAgent.Proofs.Archive.Effects
import OtaAgent.Proofs.Archive.Reading

set_option autoImplicit false

namespace OtaAgent

open Files

/-- What a history says: the version that is installed, and what is kept of each version. -/
structure Account where
  current : String
  kept : String → Option Backup

namespace Account

def install (before : Option Account) (version : String) (backup : Backup) : Account where
  current := version
  kept other := if other = version then some backup else before.bind (·.kept other)

def goBackTo (account : Account) (version : String) : Account := { account with current := version }

end Account

def History.account (h : History) : Account := ⟨h.current, h.backups.get?⟩

namespace Archive

variable (a : Archive) (package : String)

/-- What may be asked of the archive about one package. -/
inductive Request
  | record (r : Receipt)
  | reinstate (version : String)

/-- What is to be kept of an install: the first digest that can be read, in its written form. -/
def entry (r : Receipt) : Backup where
  downloaded := r.downloaded
  digest := (((r.received.bind Digest.parse?).or (r.computed.bind Digest.parse?)).map
    Digest.text).getD ""
  file := a.backupPath package r.version r.file

namespace Request

def job : Request → FileJob History
  | .record r => a.record { r with package }
  | .reinstate version => a.reinstate package version

/-- No file is backed up in the directory of the histories. -/
def StaysOutside (t : Tree) : Request → Prop
  | .record r => a.BacksUpOutside t { r with package }
  | .reinstate _ => True

def grant (before : Option Account) : Request → Option Account
  | .record r => some (.install before r.version (a.entry package r))
  | .reinstate version => before.map (·.goBackTo version)

/-- The account after the request has been answered. -/
def next (before : Option Account) (q : Request) : Except Error History → Option Account
  | .ok _ => q.grant a package before
  | .error _ => before

end Request

def account? (t : Tree) : Option Account := (a.get? t package).map History.account

/-- Requests that were made one after the other, the files that the last of them left, and how each
was answered. -/
inductive Served (t : Tree) : List (Request × Except Error History) → Tree → Prop
  | nil : Served t [] t
  | snoc {log : List (Request × Except Error History)} {before after : Tree} {q : Request}
      {answer : Except Error History} (earlier : Served t log before)
      (outside : q.StaysOutside a package before)
      (ran : (q.job a package).runOn before = (answer, after)) :
      Served t (log ++ [(q, answer)]) after

/-- What a request on `t` is answered, and what is read afterwards. -/
structure Serves (t : Tree) (q : Request) (answer : Except Error History) (after : Tree) :
    Prop where
  granted : ∀ h, answer = .ok h → a.get? after package = some h ∧
    a.account? package after = q.grant a package (a.account? package t)
  refused : ∀ e, answer = .error e → a.get? after package = a.get? t package
  known : ∀ version, q = .reinstate version → (∃ h, answer = .ok h) →
    ∃ h, a.get? t package = some h ∧ (h.backups.get? version).isSome
  reinstated : ∀ version, q = .reinstate version → a.CanWrite t package →
    (∃ h, a.get? t package = some h ∧ (h.backups.get? version).isSome) → ∃ h, answer = .ok h

variable {a package} {t last after : Tree} {q : Request} {answer : Except Error History}
  {log : List (Request × Except Error History)}

theorem account_install (before : Option History) (version : String) (b : Backup) :
    ((before.getD (.fresh version)).install version b).account =
      .install (before.map History.account) version b := by
  have kept (other : String) :
      ((before.getD (.fresh version)).install version b).backups.get? other =
        (Account.install (before.map History.account) version b).kept other := by
    rw [History.install, Table.get?_insert, Account.install]
    cases before <;> rfl
  rw [History.account, funext kept]
  rfl

theorem kept_eq_entry (r : Receipt) : a.kept { r with package } = a.entry package r := by
  have digest : r.digest? = (r.received.bind Digest.parse?).or (r.computed.bind Digest.parse?) := by
    unfold Receipt.digest?
    cases r.received.bind Digest.parse? <;> rfl
  rw [entry, ← digest]
  rfl

theorem serves_record (valid : canNameFile package = true) (reach : a.InReach t package)
    {r : Receipt} (outside : a.BacksUpOutside t { r with package })
    (ran : (a.record { r with package }).runOn t = (answer, after)) :
    a.Serves package t (.record r) answer after ∧ a.InReach after package := by
  have apart := @ne_historyAt_of_outside a t package _ outside
  cases answer with
  | ok h =>
    obtain ⟨made, read, within⟩ := get?_of_record valid reach apart ran
    refine ⟨⟨?_, nofun, nofun, nofun⟩, within⟩
    intro _ same
    cases same
    refine ⟨read, ?_⟩
    rw [account?, read, made, Option.map_some, account_install, kept_eq_entry]
    rfl
  | error e =>
    obtain ⟨same, within⟩ := get?_of_record_error valid reach apart ran
    exact ⟨⟨nofun, fun _ _ => same, nofun, nofun⟩, within⟩

theorem serves_reinstate (valid : canNameFile package = true) (reach : a.InReach t package)
    {version : String} (ran : (a.reinstate package version).runOn t = (answer, after)) :
    a.Serves package t (.reinstate version) answer after ∧ a.InReach after package := by
  have reinstated (can : a.CanWrite t package)
      (known : ∃ h, a.get? t package = some h ∧ (h.backups.get? version).isSome) :
      ∃ h, answer = .ok h := by
    obtain ⟨h, held, contained⟩ := known
    obtain ⟨back, next, granted⟩ := exists_runOn_reinstate valid reach can held contained
    rw [ran, Prod.mk.injEq] at granted
    exact ⟨back, granted.1⟩
  cases answer with
  | ok h =>
    obtain ⟨⟨before, held, contained, rfl⟩, read, within⟩ := get?_of_reinstate valid reach ran
    refine ⟨⟨?_, nofun, ?_, ?_⟩, within⟩
    · intro _ same
      cases same
      refine ⟨read, ?_⟩
      rw [account?, account?, read, held]
      rfl
    · intro _ same _
      cases same
      exact ⟨before, held, contained⟩
    · intro _ same
      cases same
      exact reinstated
  | error e =>
    obtain ⟨same, within⟩ := get?_of_reinstate_error valid reach ran
    refine ⟨⟨nofun, fun _ _ => same, nofun, ?_⟩, within⟩
    intro _ same
    cases same
    exact reinstated

/-- One request at a time: what it says is what becomes of the account, if it is granted. -/
theorem serves_job (valid : canNameFile package = true) (reach : a.InReach t package)
    (outside : q.StaysOutside a package t)
    (ran : (q.job a package).runOn t = (answer, after)) :
    a.Serves package t q answer after ∧ a.InReach after package := by
  cases q with
  | record r => exact serves_record valid reach outside ran
  | reinstate version => exact serves_reinstate valid reach ran

theorem Serves.account? (serves : a.Serves package t q answer after) :
    a.account? package after = q.next a package (a.account? package t) answer := by
  cases answer with
  | ok h => exact (serves.granted h rfl).2
  | error e => exact congrArg (Option.map History.account) (serves.refused e rfl)

theorem Served.inReach (served : a.Served package t log last)
    (valid : canNameFile package = true) (reach : a.InReach t package) :
    a.InReach last package := by
  induction served with
  | nil => exact reach
  | snoc earlier outside ran ih => exact (serves_job valid ih outside ran).2

/-- What is read after any requests is the account that they make in memory, and the next request is
answered and carried out by that account. -/
theorem served_refines (valid : canNameFile package = true) (reach : a.InReach t package)
    (served : a.Served package t log last) :
    a.account? package last =
        log.foldl (fun account entry => entry.1.next a package account entry.2)
          (a.account? package t) ∧
      ∀ q, q.StaysOutside a package last →
        a.Serves package last q ((q.job a package).runOn last).1
          ((q.job a package).runOn last).2 := by
  constructor
  · induction served with
    | nil => rfl
    | snoc earlier outside ran ih =>
      have within := earlier.inReach valid reach
      rw [List.foldl_append, ← ih]
      exact (serves_job valid within outside ran).1.account?
  · intro q outside
    exact (serves_job valid (served.inReach valid reach) outside rfl).1

/-- A version is recorded after another one. -/
theorem served_refines_second :
    let a : Archive := ⟨⟨"/versions"⟩, ⟨"/backups"⟩⟩
    let t := (((Tree.empty []).put ["versions"] .dir).put ["versions", "app"]
      (.file (Text.Utf8.encode (History.fresh "1").text))).put ["new"] (.file [1, 2, 3])
    let q := Request.record ⟨"", "2", none, none, true, ⟨"/new"⟩⟩
    let answer := ((q.job a "app").runOn t).1
    let last := ((q.job a "app").runOn t).2
    ((canNameFile "app" = true ∧ a.InReach t "app" ∧ a.Served "app" t [(q, answer)] last) ∧
      a.account? "app" last =
        [(q, answer)].foldl (fun account entry => entry.1.next a "app" account entry.2)
          (a.account? "app" t) ∧
      ∀ q, q.StaysOutside a "app" last →
        a.Serves "app" last q ((q.job a "app").runOn last).1 ((q.job a "app").runOn last).2) ∧
      a.get? t "app" = some (.fresh "1") ∧ answer.toOption.isSome := by
  intro a t q answer last
  have valid : canNameFile "app" = true := by decide +kernel
  have placed : t.place (a.historyPath "app") = .ok (.entry ["versions"] "app" false) :=
    eq_ok_of_toOption (by decide +kernel)
  have reach : a.InReach t "app" := inReach_of_placed valid (.inr rfl) placed
  have outside : q.StaysOutside a "app" t := by
    unfold Request.StaysOutside BacksUpOutside
    decide +kernel
  have served : a.Served "app" t [(q, answer)] last := .snoc .nil outside rfl
  exact ⟨⟨⟨valid, reach, served⟩, served_refines valid reach served⟩, by decide +kernel⟩

/-- The path of a history steps back out of a directory that is missing. It leads nowhere until that
directory has been made, which a request does even if it is refused. -/
theorem not_serves_throughMissing :
    let a : Archive := ⟨⟨"/missing/../versions"⟩, ⟨"/backups"⟩⟩
    let t := ((Tree.empty []).put ["versions"] .dir).put ["versions", "app"]
      (.file (Text.Utf8.encode (History.fresh "1").text))
    let q := Request.record ⟨"", "2", none, none, true, ⟨"/new"⟩⟩
    let answer := ((q.job a "app").runOn t).1
    let after := ((q.job a "app").runOn t).2
    canNameFile "app" = true ∧ t.Sound ∧ q.StaysOutside a "app" t ∧ answer.toOption = none ∧
      a.get? t "app" = none ∧ a.get? after "app" = some (.fresh "1") ∧
      ¬ a.Serves "app" t q answer after := by
  intro a t q answer after
  have refused : answer.toOption = none := by decide +kernel
  have before : a.get? t "app" = none := by decide +kernel
  have found : a.get? after "app" = some (.fresh "1") := by decide +kernel
  have outside : q.StaysOutside a "app" t := by
    unfold Request.StaysOutside BacksUpOutside
    decide +kernel
  refine ⟨by decide +kernel, .inr rfl, outside, refused, before, found, ?_⟩
  intro serves
  cases given : answer with
  | ok h =>
    rw [given] at refused
    cases refused
  | error e =>
    rw [serves.refused e given, before] at found
    cases found

end Archive
end OtaAgent
