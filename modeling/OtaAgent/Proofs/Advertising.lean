import OtaAgent.Course
import OtaAgent.Proofs.Archive.Reading
import OtaAgent.Proofs.Json.Members
import OtaAgent.Proofs.Report

set_option autoImplicit false

namespace OtaAgent

open Json

namespace Order

/-- What the device manager says of the package in an order, with `versions` for the files that it
offers. -/
def members (order : Order) (versions : Option Json) : List (String × Json) :=
  [("type", .string order.handler),
    ("name", .string order.release.name),
    ("version", .string order.release.version),
    ("rollback-versions", .strings order.rollbackVersions)] ++
  Report.given "rollback-version" (order.rollbackVersion.map .string) ++
  Report.given "version-list" versions

/-- The message in which the device manager orders an install. -/
def message (order : Order) (versions : Option Json) : Json :=
  .object [("type", .string Wire.readyUpdate),
    ("body", .object [("package", .object (order.members versions))])]

end Order

def Backup.offer (version : String) (b : Backup) : Offer :=
  ⟨version, b.file, some b.digest, b.downloaded⟩

/-- The file of a version that is kept, as it is listed in the reply to a query. -/
def Backup.listing (b : Backup) : Json :=
  .ofMembers [("file", .string b.file.text), ("sha-256", .string b.digest),
    ("downloaded", .bool b.downloaded)]

def History.listing (h : History) : Json :=
  .ofMembers (h.backups.map fun (version, b) => (version, b.listing))

def History.offers (h : History) : List Offer := h.backups.map fun (version, b) => b.offer version

variable {σ : Type}

/-- What is offered when the device manager sends the list back. -/
def Course.advertised (d : Device σ) (t : Files.Tree) (package : String) : List Offer :=
  ((d.archive.get? t package).map History.offers).getD []

/-- The versions that are listed in the reply to a query. -/
theorem Course.member?_packageReport (d : Device σ) (t : Files.Tree) (package : String)
    (version : Option String) : (packageReport d t package version).member? "version-list" =
      (d.archive.get? t package).map History.listing := by
  unfold packageReport
  rw [Json.member?_ofMembers]
  cases d.archive.get? t package with
  | none => cases d.profile.deltaCap <;> simp [Table.get?, Report.given]
  | some h =>
    cases d.profile.deltaCap <;>
      simp [Table.get?, Report.given, History.listing, Backup.listing]

namespace Wire

theorem list?_strings (texts : List String) :
    list? text? (Json.strings texts).toDoc = some texts := by
  rw [Json.strings, toDoc, list?]
  induction texts with
  | nil => rfl
  | cons head rest ih => simp [itemDocs, toDoc, text?, ih]

theorem Version.ofDoc?_listing (b : Backup) :
    Version.ofDoc? b.listing.toDoc = some ⟨some b.file.text, some b.digest, b.downloaded⟩ := by
  have listed : b.listing = .object [("downloaded", .bool b.downloaded),
      ("file", .string b.file.text), ("sha-256", .string b.digest)] := by
    have below : "downloaded" < "file" := by decide
    have above : ¬ "sha-256" < "file" := by decide
    have apart : "sha-256" ≠ "file" := by decide
    simp only [Backup.listing, Json.ofMembers, Table.ofList, List.foldl_cons, List.foldl_nil,
      Table.insert, below, above, apart, if_true, if_false]
  rw [listed]
  rfl

theorem mapM_pair?_listing (backups : Table Backup) :
    (memberDocs (backups.map fun (version, b) => (version, b.listing))).mapM
        (pair? Version.ofDoc?) =
      some (backups.map fun (version, b) =>
        (version, ⟨some b.file.text, some b.digest, b.downloaded⟩)) :=
  mapM_pair?_memberDocs (fun entry : String × Backup => Version.ofDoc?_listing entry.2) backups

/-- What is listed of a history is read back entry by entry. -/
theorem table?_listing {h : History} (sorted : h.backups.Sorted) :
    table? Version.ofDoc? h.listing.toDoc = some (h.backups.map fun (version, b) =>
      (version, ⟨some b.file.text, some b.digest, b.downloaded⟩)) := by
  have listed := sorted.map fun entry => entry.2.listing
  have read := sorted.map fun entry =>
    (⟨some entry.2.file.text, some entry.2.digest, entry.2.downloaded⟩ : Version)
  rw [History.listing, Json.ofMembers, Table.ofList_eq_self listed, toDoc, table?,
    mapM_pair?_listing, Option.map_some, Table.ofList_eq_self read]

/-- What an order says of its package is read back. -/
theorem ofDoc?_members (order : Order) (versions : Option Json) {table : Table Version}
    (read : default? [] (table? Version.ofDoc?) (versions.map toDoc) = some table) :
    Package.ofDoc? (.object (memberDocs (order.members versions))) = some {
      handler := order.handler
      name := order.release.name
      version := some order.release.version
      versions := table
      rollbackVersion := order.rollbackVersion
      rollbackVersions := order.rollbackVersions } := by
  have listed := list?_strings order.rollbackVersions
  unfold Order.members
  cases order.rollbackVersion <;> cases versions <;>
    simp_all [Package.ofDoc?, fields?, memberNames?, docMember?, memberDocs, toDoc, Report.given,
      required?, optional?, default?, text?]

theorem ofDoc?_message (order : Order) (versions : Option Json) {package : Package}
    (read : Package.ofDoc? (.object (memberDocs (order.members versions))) = some package) :
    Envelope.ofDoc? (order.message versions).toDoc =
      some ⟨readyUpdate, none, ⟨some package, none, none⟩⟩ := by
  simp [Order.message, toDoc, memberDocs, Envelope.ofDoc?, Body.ofDoc?, fields?, memberNames?,
    docMember?, required?, optional?, default?, text?, read]

end Wire

/-- The message of an order is the order, with the files that are read out of its list. -/
theorem Event.parse_message (order : Order) (versions : Option Json)
    {table : Table Wire.Version}
    (read : default? [] (table? Wire.Version.ofDoc?) (versions.map toDoc) = some table) :
    Event.parse (order.message versions).compact = .ok (.install { order with
      offers := table.filterMap fun (version, entry) =>
        entry.file.map fun file => ⟨version, ⟨file⟩, entry.digest, entry.downloaded⟩ }) := by
  have message := Wire.ofDoc?_message order versions (Wire.ofDoc?_members order versions read)
  rw [Event.parse, Doc.parse?_compact, Option.bind_some, message]
  rfl

/-- An order that lists no versions offers no files. -/
theorem Event.parse_unlisted (order : Order) :
    Event.parse (order.message none).compact = .ok (.install { order with offers := [] }) :=
  Event.parse_message order none rfl

/-- An order that lists what was said in reply to a query offers the files of the versions that are
kept. -/
theorem Event.parse_advertised (d : Device σ) (t : Files.Tree) (order : Order)
    (package : String) (version : Option String) :
    Event.parse (order.message
        ((Course.packageReport d t package version).member? "version-list")).compact =
      .ok (.install { order with offers := Course.advertised d t package }) := by
  rw [Course.member?_packageReport, Course.advertised]
  cases found : d.archive.get? t package with
  | none => exact Event.parse_unlisted order
  | some h =>
    have read : default? [] (table? Wire.Version.ofDoc?) ((some h.listing).map toDoc) = some _ :=
      Wire.table?_listing (Archive.sorted_of_get? found)
    refine (Event.parse_message order (some h.listing) read).trans ?_
    simp [History.offers, Backup.offer, List.filterMap_map]

theorem Order.offer?_offers (order : Order) (h : History) (version : String) :
    { order with offers := h.offers }.offer? version =
      (h.backups.get? version).map (·.offer version) := by
  unfold Order.offer? History.offers
  induction h.backups with
  | nil => rfl
  | cons entry rest ih =>
    obtain ⟨kept, b⟩ := entry
    rw [List.map_cons, Table.get?]
    by_cases same : version = kept
    · rw [if_pos same, List.find?_cons_of_pos (by simp [Backup.offer, same]), same]
      rfl
    · rw [if_neg same, List.find?_cons_of_neg (by simp [Backup.offer, Ne.symm same])]
      exact ih

end OtaAgent
