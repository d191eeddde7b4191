import Mathlib.Data.List.Nodup
import OtaAgent.Proofs.Advertising
import OtaAgent.Proofs.Json.Values
import OtaAgent.Proofs.Session.Intercepting
import OtaAgent.Proofs.Text.Utf8
import OtaAgent.Proofs.Wire.Layout

set_option autoImplicit false

namespace OtaAgent

open Json

/-- What a list of versions says of the file. -/
def Offer.entry (o : Offer) : Json :=
  .object ([("file", .string o.file.text), ("downloaded", .bool o.downloaded)] ++
    Report.given "sha-256" (o.digest.map .string))

/-- What is read of that entry, under its version. -/
def Offer.listed (o : Offer) : String × Wire.Version :=
  (o.version, ⟨some o.file.text, o.digest, o.downloaded⟩)

def Offer.le (a b : Offer) : Bool :=
  decide (Text.Utf8.encode a.version ≤ Text.Utf8.encode b.version)

namespace Order

def listing (o : Order) : Json := .object (o.offers.map fun offer => (offer.version, offer.entry))

/-- The order with its files in the byte order of their versions. -/
def arranged (o : Order) : Order := { o with offers := o.offers.mergeSort Offer.le }

/-- There is only one byte order of files with different versions. -/
theorem arranged_offers_eq {o : Order} {sorted : List Offer} (perm : sorted.Perm o.offers)
    (ordered : sorted.Pairwise fun a b => a.version < b.version) :
    o.arranged.offers = sorted := by
  have bytes : sorted.Pairwise fun a b => a.le b :=
    ordered.imp fun less => decide_eq_true (List.le_of_lt (Text.Utf8.encode_lt_encode less))
  have nodup : (sorted.map (·.version)).Nodup :=
    List.pairwise_map.mpr (ordered.imp fun less => String.ne_of_lt less)
  have merged := (List.mergeSort_perm o.offers Offer.le).trans perm.symm
  refine List.Perm.eq_of_pairwise ?_ (List.pairwise_mergeSort ?_ ?_ o.offers) bytes merged
  · intro a b there there' le le'
    refine List.inj_on_of_nodup_map nodup (merged.mem_iff.mp there) there' ?_
    exact Text.Utf8.encode_injective
      (List.le_antisymm (of_decide_eq_true le) (of_decide_eq_true le'))
  · exact fun a b c le le' =>
      decide_eq_true (List.le_trans (of_decide_eq_true le) (of_decide_eq_true le'))
  · intro a b
    rw [Offer.le, Offer.le, Bool.or_eq_true, decide_eq_true_iff, decide_eq_true_iff]
    exact List.le_total _ _

end Order

namespace Event

def package : Event → List (String × Json)
  | query handler name _ => [("type", .string handler), ("name", .string name)]
  | offered handler release | confirmed handler release | downloading handler release _ _ =>
    [("type", .string handler), ("name", .string release.name),
      ("version", .string release.version)]
  | prepare order | install order => order.members (some order.listing)
  | unhandled _ => []

def counters : Event → List (String × Json)
  | downloading _ _ downloadedBytes totalBytes =>
    [("downloaded-bytes", .ofInt downloadedBytes), ("total-bytes", .ofInt totalBytes)]
  | _ => []

def replyId? : Event → Option String
  | query _ _ replyId => replyId
  | _ => none

def message (e : Event) : Json :=
  .object ([("type", .string e.kind),
    ("body", .object (("package", .object e.package) :: e.counters))] ++
      Report.given "reply-id" (e.replyId?.map .string))

/-- The event is sent in a message of its own, its counters have 64 bits, and it offers one file for
a version. -/
def IsRegular : Event → Prop
  | query _ _ _ | offered _ _ | confirmed _ _ => True
  | prepare order | install order => (order.offers.map (·.version)).Nodup
  | downloading _ _ downloadedBytes totalBytes => downloadedBytes < 2 ^ 64 ∧ totalBytes < 2 ^ 64
  | unhandled _ => False

instance : DecidablePred IsRegular
  | query _ _ _ | offered _ _ | confirmed _ _ => inferInstanceAs (Decidable True)
  | prepare order | install order =>
    inferInstanceAs (Decidable (order.offers.map (·.version)).Nodup)
  | downloading _ _ downloadedBytes totalBytes =>
    inferInstanceAs (Decidable (downloadedBytes < 2 ^ 64 ∧ totalBytes < 2 ^ 64))
  | unhandled _ => inferInstanceAs (Decidable False)

def arranged : Event → Event
  | prepare order => prepare order.arranged
  | install order => install order.arranged
  | e => e

end Event

theorem count?_ofInt {n : Nat} (small : n < 2 ^ 64) : count? (toDoc (.ofInt n)) = some n := by
  have shape : numeral n 0 = ⟨false, (numeral n 0).whole, none, none⟩ := by
    simp [numeral]
  rw [ofInt, toDoc, shape, count?, ofDigits_whole]
  exact if_pos small

namespace Wire

theorem Version.ofDoc?_entry (o : Offer) : Version.ofDoc? o.entry.toDoc = some o.listed.2 := by
  obtain ⟨version, file, digest, downloaded⟩ := o
  cases digest <;> rfl

theorem table?_entries (order : Order) : table? Version.ofDoc? order.listing.toDoc =
    some (Table.ofList (order.offers.map Offer.listed)) := by
  rw [Order.listing, toDoc, table?, mapM_pair?_memberDocs Version.ofDoc?_entry, Option.map_some]
  rfl

/-- The files that are listed are offered in the byte order of their versions. -/
theorem Package.offers_listed {p : Package} {order : Order}
    (distinct : (order.offers.map (·.version)).Nodup)
    (read : p.versions = Table.ofList (order.offers.map Offer.listed)) :
    p.offers = order.arranged.offers := by
  have different : Table.Distinct (order.offers.map Offer.listed) :=
    List.pairwise_map.mpr (List.pairwise_map.mp distinct)
  symm
  refine Order.arranged_offers_eq ?_ ?_
  · rw [offers, read]
    refine ((Table.perm_ofList different).filterMap _).trans (.of_eq ?_)
    rw [List.filterMap_map]
    exact List.filterMap_some
  · rw [offers, read]
    refine List.Pairwise.filterMap _ ?_ (Table.sorted_ofList _)
    rintro ⟨version, entry⟩ ⟨version', entry'⟩ less o offered o' offered'
    obtain ⟨file, -, rfl⟩ := Option.map_eq_some_iff.mp offered
    obtain ⟨file', -, rfl⟩ := Option.map_eq_some_iff.mp offered'
    exact less

/-- What an order says of its package is read as the order. -/
theorem ofDoc?_package (order : Order) (distinct : (order.offers.map (·.version)).Nodup) :
    ∃ p, Package.ofDoc? (.object (memberDocs (order.members (some order.listing)))) = some p ∧
      ∀ kind, p.order kind = .ok order.arranged := by
  refine ⟨_, ofDoc?_members order (some order.listing) (table?_entries order), fun kind => ?_⟩
  refine congrArg (fun offers => Except.ok { order with offers }) (?_ : Package.offers _ = _)
  exact Package.offers_listed distinct rfl

theorem Envelope.ofDoc?_message {e : Event} {b : Body}
    (read : Body.ofDoc? (.object ((some "package", .object (memberDocs e.package)) ::
      memberDocs e.counters)) = some b) :
    Envelope.ofDoc? e.message.toDoc = some ⟨e.kind, e.replyId?, b⟩ := by
  unfold Event.message
  cases e.replyId? <;>
    simp [toDoc, memberDocs, Report.given, Envelope.ofDoc?, fields?, memberNames?, docMember?,
      required?, optional?, default?, text?, read]

section Bodies

variable {members : List (Option String × Doc)} {p : Package}
  (read : Package.ofDoc? (.object members) = some p)

include read

theorem Body.ofDoc?_package :
    Body.ofDoc? (.object [(some "package", .object members)]) = some ⟨some p, none, none⟩ := by
  simp [Body.ofDoc?, fields?, memberNames?, docMember?, optional?, read]

theorem Body.ofDoc?_counters {n m : Nat} (small : n < 2 ^ 64) (small' : m < 2 ^ 64) :
    Body.ofDoc? (.object ((some "package", .object members) ::
        memberDocs [("downloaded-bytes", .ofInt n), ("total-bytes", .ofInt m)])) =
      some ⟨some p, some n, some m⟩ := by
  have packaged : optional? Package.ofDoc? (some (.object members)) = some (some p) :=
    congrArg (Option.map some) read
  have counted {n : Nat} (small : n < 2 ^ 64) :
      optional? count? (some (toDoc (.ofInt n))) = some (some n) :=
    congrArg (Option.map some) (count?_ofInt small)
  simp [Body.ofDoc?, memberDocs, fields?, memberNames?, docMember?, packaged, counted small,
    counted small']

end Bodies

end Wire

theorem Order.tidy_of_mem (order : Order) (distinct : (order.offers.map (·.version)).Nodup)
    {v : Json} (given : ("version-list", v) ∈ order.members (some order.listing)) :
    Wire.Tidy .versions v.toDoc := by
  obtain rfl : v = order.listing := by
    cases rollback : order.rollbackVersion <;>
      simpa [Order.members, Report.given, rollback] using given
  have names : (memberDocs (order.offers.map fun o => (o.version, o.entry))).map (·.1) =
      (order.offers.map (·.version)).map some := by
    rw [memberDocs_eq_map, List.map_map, List.map_map, List.map_map]
    rfl
  exact .versions (names ▸ distinct.map fun _ _ => Option.some.inj)

namespace Event

/-- The event is read from its message. -/
theorem ofDoc?_message {e : Event} (regular : e.IsRegular) :
    ∃ read, Wire.Envelope.ofDoc? e.message.toDoc = some read ∧
      ofEnvelope read = .ok e.arranged := by
  cases e with
  | query handler name replyId =>
    exact ⟨_, Wire.Envelope.ofDoc?_message (Wire.Body.ofDoc?_package rfl), rfl⟩
  | offered handler release =>
    exact ⟨_, Wire.Envelope.ofDoc?_message (Wire.Body.ofDoc?_package rfl), rfl⟩
  | confirmed handler release =>
    exact ⟨_, Wire.Envelope.ofDoc?_message (Wire.Body.ofDoc?_package rfl), rfl⟩
  | downloading handler release downloadedBytes totalBytes =>
    exact ⟨_, Wire.Envelope.ofDoc?_message
      (Wire.Body.ofDoc?_counters rfl regular.1 regular.2), rfl⟩
  | prepare order =>
    obtain ⟨p, package, ordered⟩ := Wire.ofDoc?_package order regular
    exact ⟨_, Wire.Envelope.ofDoc?_message (Wire.Body.ofDoc?_package package),
      congrArg (Except.map prepare) (ordered Wire.prepareUpdate)⟩
  | install order =>
    obtain ⟨p, package, ordered⟩ := Wire.ofDoc?_package order regular
    exact ⟨_, Wire.Envelope.ofDoc?_message (Wire.Body.ofDoc?_package package),
      congrArg (Except.map install) (ordered Wire.readyUpdate)⟩
  | unhandled kind => exact regular.elim

/-- No version is listed twice in the message. -/
theorem tidy_message {e : Event} (regular : e.IsRegular) :
    Wire.Tidy .envelope e.message.toDoc := by
  have package : Wire.Tidy .package (toDoc (.object e.package)) := by
    refine .record rfl fun name q d holds there => ?_
    cases holds
    obtain ⟨v, given, rfl⟩ := exists_of_mem_memberDocs there
    cases e with
    | prepare order => exact order.tidy_of_mem regular given
    | install order => exact order.tidy_of_mem regular given
    | unhandled kind => exact regular.elim
    | _ => simp [Event.package] at given
  have body : Wire.Tidy .body (toDoc (.object (("package", .object e.package) :: e.counters))) := by
    refine .record rfl fun name q d holds there => ?_
    cases holds
    obtain ⟨v, given, rfl⟩ := exists_of_mem_memberDocs there
    obtain rfl : v = .object e.package := by
      cases e <;> simpa [counters] using given
    exact package
  refine .record rfl fun name q d holds there => ?_
  cases holds
  obtain ⟨v, given, rfl⟩ := exists_of_mem_memberDocs there
  obtain rfl : v = .object (("package", .object e.package) :: e.counters) := by
    cases replyId : e.replyId? <;> simpa [replyId, Report.given] using given
  exact body

/-- An event is read from its message, with its files in the byte order of their versions, and so it
is from every message that is laid out differently. -/
theorem parse_layouts {e : Event} (regular : e.IsRegular) :
    parse e.message.compact = .ok e.arranged ∧
      ∀ raw d, Doc.parse? raw = some d →
        Relation.ReflTransGen (Wire.Varies .envelope) e.message.toDoc d →
          parse raw = .ok e.arranged := by
  obtain ⟨envelope, read, event⟩ := ofDoc?_message regular
  have text := Doc.parse?_compact e.message
  have parsed : parse e.message.compact = .ok e.arranged := by
    rw [parse, text, Option.bind_some, read]
    exact event
  exact ⟨parsed, fun raw d text' varied =>
    (parse_of_varies text text' (tidy_message regular) varied).trans parsed⟩

/-- A note beside the fields and a version without a file make no difference to an order. -/
theorem parse_layouts_install :
    let files : List Offer := [⟨"2.0", ⟨"/b"⟩, none, true⟩, ⟨"10.0", ⟨"/a"⟩, some "d", false⟩]
    let order : Order := ⟨⟨"app", "2.0"⟩, "ecu", files, none, ["1.0"]⟩
    let versions : Json := .object [("1.0", .object [("downloaded", .bool true)]),
      ("2.0", .object [("file", .string "/b"), ("downloaded", .bool true)]),
      ("10.0", .object [("file", .string "/a"), ("downloaded", .bool false),
        ("sha-256", .string "d")])]
    let told : Json := .object [("note", .array [.null]), ("type", .string Wire.readyUpdate),
      ("body", .object [("package", .object (order.members (some versions)))])]
    (install order).IsRegular ∧
      parse told.compact = .ok (install { order with offers := files.reverse }) := by
  intro files order versions told
  have regular : (install order).IsRegular := by decide
  have fileless : Wire.Fileless [(some "downloaded", .bool true)] :=
    ⟨⟨by simp, by decide⟩, by simp, by simp, by simp⟩
  have listed : Wire.Varies .versions order.listing.toDoc versions.toDoc :=
    .listed fileless (by decide)
  have packaged : Wire.Varies .package (toDoc (.object (order.members (some order.listing))))
      (toDoc (.object (order.members (some versions)))) :=
    .inside .versions listed (memberDocs (order.members none)) []
  have sent : Wire.Varies .envelope (install order).message.toDoc
      (order.message (some versions)).toDoc :=
    .inside .body (.inside .package packaged [] []) [(some "type", _)] []
  have noted : Wire.Varies .envelope (order.message (some versions)).toDoc told.toDoc :=
    .added rfl (by decide) _ _
  have sorted : order.arranged.offers = files.reverse :=
    Order.arranged_offers_eq files.reverse_perm (by decide)
  have arranged : (install order).arranged = install { order with offers := files.reverse } :=
    congrArg (fun offers => install { order with offers }) sorted
  exact ⟨regular, arranged ▸ (parse_layouts regular).2 _ _ (Doc.parse?_compact told)
    (.head sent (.single noted))⟩

/-- A name that is half of a character is none, and the flag of a version is never `null`, though
nothing would be read of either. -/
theorem parse_layouts_refused :
    let e := query "ecu" "app" none
    let begun := "\x7b\"type\":\"xl4.query-package\",\"body\":" ++
      "\x7b\"package\":\x7b\"type\":\"ecu\",\"name\":\"app\""
    let halved := begun ++ "\x7d\x7d,\"\\ud83d\":1\x7d"
    let flagged := begun ++ ",\"version-list\":" ++
      "\x7b\"1\":\x7b\"downloaded\":null\x7d\x7d\x7d\x7d\x7d"
    e.message.compact = begun ++ "\x7d\x7d\x7d" ∧ parse e.message.compact = .ok e ∧
      parse halved = .error (.format .invalidJson) ∧
      parse flagged = .error (.format .invalidJson) := by
  intro e begun halved flagged
  have refused {raw : String}
      (unread : ((Doc.parse? raw).bind Wire.Envelope.ofDoc?).isNone = true) :
      parse raw = .error (.format .invalidJson) := by
    rw [parse, Option.isNone_iff_eq_none.mp unread]
  exact ⟨by decide +kernel, Files.eq_ok_of_toOption (by decide +kernel),
    refused (by decide +kernel), refused (by decide +kernel)⟩

end Event
end OtaAgent
