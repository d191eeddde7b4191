import Mathlib.Logic.Relation
import OtaAgent.Event
import OtaAgent.Proofs.Json.Members

set_option autoImplicit false

namespace OtaAgent

namespace Wire

open Json

/-- The places in a message where objects stand that something is read of. -/
inductive Place
  | envelope
  | body
  | package
  | versions
  | version

abbrev Envelope.names : List String := ["type", "reply-id", "body"]

abbrev Body.names : List String := ["package", "downloaded-bytes", "total-bytes"]

abbrev Package.names : List String :=
  ["type", "name", "version", "version-list", "rollback-version", "rollback-versions"]

abbrev Version.names : List String := ["file", "sha-256", "downloaded"]

namespace Place

/-- The fields of the record that stands at a place. A list of versions is no record. -/
def names? : Place → Option (List String)
  | envelope => some Envelope.names
  | body => some Body.names
  | package => some Package.names
  | versions => none
  | version => some Version.names

/-- What stands under a name is at a place of its own. -/
inductive Holds : Place → String → Place → Prop
  | body : Holds envelope "body" body
  | package : Holds body "package" package
  | versions : Holds package "version-list" versions
  | version (name : String) : Holds versions name version

end Place

/-- An entry in a list of versions has these members, and no file. -/
structure Fileless (members : List (Option String × Doc)) : Prop where
  legible : Legible Version.names (members.map (·.1))
  file : ∀ d, (some "file", d) ∈ members → d = .null
  digest : ∀ d, (some "sha-256", d) ∈ members → d = .null ∨ ∃ s, d = .string (some s)
  downloaded : ∀ d, (some "downloaded", d) ∈ members → ∃ b, d = .bool b

/-- The second document says at its place what the first one says, in a layout that differs in one
respect. -/
inductive Varies : Place → Doc → Doc → Prop
  /-- The members of an object stand in another order. -/
  | reordered {p : Place} {members members' : List (Option String × Doc)}
      (perm : members.Perm members') : Varies p (.object members) (.object members')
  /-- A record has one more member, with a name that it does not know and any value. -/
  | added {p : Place} {names : List String} (record : p.names? = some names) {name : String}
      (unknown : name ∉ names) (d : Doc) (members : List (Option String × Doc)) :
      Varies p (.object members) (.object ((some name, d) :: members))
  /-- Another value stands under a name that a record does not know, such as the same one with
  members in another order. -/
  | replaced {p : Place} {names : List String} (record : p.names? = some names) {name : String}
      (unknown : name ∉ names) (d d' : Doc) (before after : List (Option String × Doc)) :
      Varies p (.object (before ++ (some name, d) :: after))
        (.object (before ++ (some name, d') :: after))
  /-- An object varies that stands in the object. -/
  | inside {p q : Place} {name : String} (holds : p.Holds name q) {d d' : Doc}
      (varies : Varies q d d') (before after : List (Option String × Doc)) :
      Varies p (.object (before ++ (some name, d) :: after))
        (.object (before ++ (some name, d') :: after))
  /-- A version is listed that is not listed yet, without a file. -/
  | listed {entry : List (Option String × Doc)} (fileless : Fileless entry) {version : String}
      {members : List (Option String × Doc)} (fresh : some version ∉ members.map (·.1)) :
      Varies .versions (.object members) (.object ((some version, .object entry) :: members))
  /-- A list of versions is begun where there is none. -/
  | begun {members : List (Option String × Doc)}
      (fresh : some "version-list" ∉ members.map (·.1)) :
      Varies .package (.object members) (.object ((some "version-list", .object []) :: members))

/-- In the lists of versions no version stands twice. -/
inductive Tidy : Place → Doc → Prop
  | versions {members : List (Option String × Doc)} (nodup : (members.map (·.1)).Nodup) :
      Tidy .versions (.object members)
  | record {p : Place} {names : List String} (record : p.names? = some names)
      {members : List (Option String × Doc)}
      (each : ∀ name q d, p.Holds name q → (some name, d) ∈ members → Tidy q d) :
      Tidy p (.object members)

/-- With the versions that have a file. -/
def Package.filed (p : Package) : Package :=
  { p with versions := p.versions.filter (·.2.file.isSome) }

def Body.filed (b : Body) : Body := { b with package := b.package.map (·.filed) }

def Envelope.filed (e : Envelope) : Envelope := { e with body := e.body.filed }

/-- The same is read of two documents at a place, as far as files are offered. -/
def Place.Agree : Place → Doc → Doc → Prop
  | envelope, d, d' => (Envelope.ofDoc? d).map (·.filed) = (Envelope.ofDoc? d').map (·.filed)
  | body, d, d' => (Body.ofDoc? d).map (·.filed) = (Body.ofDoc? d').map (·.filed)
  | package, d, d' => (Package.ofDoc? d).map (·.filed) = (Package.ofDoc? d').map (·.filed)
  | versions, d, d' =>
    (table? Version.ofDoc? d).map (List.filter (·.2.file.isSome)) =
      (table? Version.ofDoc? d').map (List.filter (·.2.file.isSome))
  | version, d, d' => Version.ofDoc? d = Version.ofDoc? d'

variable {p q : Place} {d d' : Doc} {members : List (Option String × Doc)}

theorem Place.Agree.trans {d'' : Doc} (first : p.Agree d d') (second : p.Agree d' d'') :
    p.Agree d d'' := by
  cases p <;> exact Eq.trans first second

theorem Place.Agree.symm (agree : p.Agree d d') : p.Agree d' d := by
  cases p <;> exact Eq.symm agree

/-- A record is read by its fields. -/
theorem Place.agree_of_fields {names : List String} (record : p.names? = some names)
    (same : ∀ least, fields? names least d = fields? names least d') : p.Agree d d' := by
  cases p with
  | versions => cases record
  | envelope => cases record; exact congrArg _ (by simp only [Envelope.ofDoc?, same])
  | body => cases record; exact congrArg _ (by simp only [Body.ofDoc?, same])
  | package => cases record; exact congrArg _ (by simp only [Package.ofDoc?, same])
  | version => cases record; unfold Agree; simp only [Version.ofDoc?, same]

section Records

variable {kind replyId body package downloadedBytes totalBytes : Option Doc}
  {handler name version versions rollbackVersion rollbackVersions : Option Doc}

theorem Envelope.map_filed_ofDoc?
    (read : fields? names 2 d = some [kind, replyId, body]) :
    (ofDoc? d).map (·.filed) = do
      let kind ← required? text? kind
      let replyId ← optional? text? replyId
      return ⟨kind, replyId,
        ← (default? ⟨none, none, none⟩ Body.ofDoc? body).map (·.filed)⟩ := by
  simp only [ofDoc?, read, Option.bind_eq_bind, Option.bind_some]
  cases required? text? kind <;> cases optional? text? replyId <;>
    cases default? ⟨none, none, none⟩ Body.ofDoc? body <;> rfl

theorem Body.map_filed_ofDoc?
    (read : fields? names 3 d = some [package, downloadedBytes, totalBytes]) :
    (ofDoc? d).map (·.filed) = do
      return ⟨← (optional? Package.ofDoc? package).map (Option.map (·.filed)),
        ← optional? count? downloadedBytes, ← optional? count? totalBytes⟩ := by
  simp only [ofDoc?, read, Option.bind_eq_bind, Option.bind_some]
  cases optional? Package.ofDoc? package <;> cases optional? count? downloadedBytes <;>
    cases optional? count? totalBytes <;> rfl

theorem Package.map_filed_ofDoc?
    (read : fields? names 5 d =
      some [handler, name, version, versions, rollbackVersion, rollbackVersions]) :
    (ofDoc? d).map (·.filed) = do
      return {
        handler := ← required? text? handler
        name := ← required? text? name
        version := ← optional? text? version
        versions :=
          ← (default? [] (table? Version.ofDoc?) versions).map (List.filter (·.2.file.isSome))
        rollbackVersion := ← optional? text? rollbackVersion
        rollbackVersions := ← default? [] (list? text?) rollbackVersions } := by
  simp only [ofDoc?, read, Option.bind_eq_bind, Option.bind_some]
  cases required? text? handler <;> cases required? text? name <;>
    cases optional? text? version <;> cases default? [] (table? Version.ofDoc?) versions <;>
    cases optional? text? rollbackVersion <;>
    cases default? [] (list? text?) rollbackVersions <;> rfl

end Records

theorem Fileless.read (fileless : Fileless members) :
    ∃ v, Version.ofDoc? (.object members) = some v ∧ v.file = none := by
  have inside {name : String} (known : name ∈ Version.names) {d : Doc} :
      docMember? members name = some d ↔ (some name, d) ∈ members :=
    docMember?_eq_some_iff (fileless.legible.once name known)
  have file : optional? text? (docMember? members "file") = some none := by
    cases found : docMember? members "file" with
    | none => rfl
    | some d => rw [fileless.file d ((inside (by decide)).mp found)]; rfl
  obtain ⟨digest, digested⟩ : ∃ digest,
      optional? text? (docMember? members "sha-256") = some digest := by
    cases found : docMember? members "sha-256" with
    | none => exact ⟨none, rfl⟩
    | some d =>
      obtain rfl | ⟨s, rfl⟩ := fileless.digest d ((inside (by decide)).mp found)
      · exact ⟨none, rfl⟩
      · exact ⟨some s, rfl⟩
  obtain ⟨flag, flagged⟩ : ∃ flag,
      default? false flag? (docMember? members "downloaded") = some flag := by
    cases found : docMember? members "downloaded" with
    | none => exact ⟨false, rfl⟩
    | some d =>
      obtain ⟨b, rfl⟩ := fileless.downloaded d ((inside (by decide)).mp found)
      exact ⟨b, rfl⟩
  refine ⟨⟨none, digest, flag⟩, ?_, rfl⟩
  rw [Version.ofDoc?, fields?_of_legible fileless.legible]
  simp [file, digested, flagged]

theorem Varies.object (varies : Varies p d d') :
    (∃ members, d = .object members) ∧ ∃ members', d' = .object members' := by
  cases varies <;> exact ⟨⟨_, rfl⟩, _, rfl⟩

section Inside

variable {inner inner' : List (Option String × Doc)}

theorem Place.Agree.inEnvelope (agree : body.Agree d d')
    (legible : Legible Envelope.names (some "body" :: members.map (·.1))) :
    envelope.Agree (.object ((some "body", d) :: members))
      (.object ((some "body", d') :: members)) := by
  have fields (d : Doc) : fields? Envelope.names 2 (.object ((some "body", d) :: members)) =
      some [docMember? members "type", docMember? members "reply-id", some d] := by
    rw [fields?_of_legible legible]
    simp [docMember?_cons]
  have same : (Body.ofDoc? d).map (·.filed) = (Body.ofDoc? d').map (·.filed) := agree
  have read := Envelope.map_filed_ofDoc? (fields d)
  rw [default?, same] at read
  exact read.trans (Envelope.map_filed_ofDoc? (fields d')).symm

/-- A package is an object here, and not `null`, which would be none. -/
theorem Place.Agree.inBody (agree : package.Agree (.object inner) (.object inner'))
    (legible : Legible Body.names (some "package" :: members.map (·.1))) :
    body.Agree (.object ((some "package", .object inner) :: members))
      (.object ((some "package", .object inner') :: members)) := by
  have fields (d : Doc) : fields? Body.names 3 (.object ((some "package", d) :: members)) =
      some [some d, docMember? members "downloaded-bytes", docMember? members "total-bytes"] := by
    rw [fields?_of_legible legible]
    simp [docMember?_cons]
  have given (inner : List (Option String × Doc)) :
      (optional? Package.ofDoc? (some (.object inner))).map (Option.map (·.filed)) =
        ((Package.ofDoc? (.object inner)).map (·.filed)).map some := by
    change ((Package.ofDoc? (.object inner)).map some).map (Option.map (·.filed)) = _
    rw [Option.map_map, Option.map_map]
    rfl
  have same : (Package.ofDoc? (.object inner)).map (·.filed) =
      (Package.ofDoc? (.object inner')).map (·.filed) := agree
  have read := Body.map_filed_ofDoc? (fields (.object inner))
  rw [given, same, ← given] at read
  exact read.trans (Body.map_filed_ofDoc? (fields (.object inner'))).symm

theorem Package.fields?_cons
    (legible : Legible Package.names (some "version-list" :: members.map (·.1))) (d : Doc) :
    fields? Package.names 5 (.object ((some "version-list", d) :: members)) =
      some [docMember? members "type", docMember? members "name", docMember? members "version",
        some d, docMember? members "rollback-version", docMember? members "rollback-versions"] := by
  rw [fields?_of_legible legible]
  simp [docMember?_cons]

theorem Place.Agree.inPackage (agree : versions.Agree d d')
    (legible : Legible Package.names (some "version-list" :: members.map (·.1))) :
    package.Agree (.object ((some "version-list", d) :: members))
      (.object ((some "version-list", d') :: members)) := by
  have same : (table? Version.ofDoc? d).map (List.filter (·.2.file.isSome)) =
      (table? Version.ofDoc? d').map (List.filter (·.2.file.isSome)) := agree
  have read := Package.map_filed_ofDoc? (Package.fields?_cons legible d)
  rw [default?, same] at read
  exact read.trans (Package.map_filed_ofDoc? (Package.fields?_cons legible d')).symm

/-- A list without versions is as good as none. -/
theorem Place.agree_begun (fresh : some "version-list" ∉ members.map (·.1)) :
    package.Agree (.object members) (.object ((some "version-list", .object []) :: members)) := by
  have beside : Legible Package.names (some "version-list" :: members.map (·.1)) ↔
      Legible Package.names (members.map (·.1)) := Legible.cons fun _ => fresh
  by_cases legible : Legible Package.names (members.map (·.1))
  · have absent : docMember? members "version-list" = none :=
      docMember?_eq_none (List.count_eq_zero_of_not_mem fresh)
    have fields : fields? Package.names 5 (.object members) =
        some [docMember? members "type", docMember? members "name", docMember? members "version",
          none, docMember? members "rollback-version", docMember? members "rollback-versions"] := by
      rw [fields?_of_legible legible]
      simp [absent]
    have fields' := Package.fields?_cons (beside.mpr legible) (.object [])
    exact (Package.map_filed_ofDoc? fields).trans (Package.map_filed_ofDoc? fields').symm
  · refine agree_of_fields rfl fun least => ?_
    rw [fields?_of_not_legible legible, fields?_of_not_legible (legible ∘ beside.mp)]

/-- What agrees under a name makes the objects agree that hold it. -/
theorem Place.Holds.agree {name : String} (holds : p.Holds name q)
    (agree : q.Agree (.object inner) (.object inner'))
    (before after : List (Option String × Doc)) :
    p.Agree (.object (before ++ (some name, .object inner) :: after))
      (.object (before ++ (some name, .object inner') :: after)) := by
  -- A record is compared with the member in front.
  have record {names : List String} (record : p.names? = some names)
      (legible : Legible names (some name :: (before ++ after).map (·.1)) →
        p.Agree (.object ((some name, .object inner) :: (before ++ after)))
          (.object ((some name, .object inner') :: (before ++ after)))) :
      p.Agree (.object (before ++ (some name, .object inner) :: after))
        (.object (before ++ (some name, .object inner') :: after)) := by
    have front (d : Doc) : p.Agree (.object (before ++ (some name, d) :: after))
        (.object ((some name, d) :: (before ++ after))) :=
      agree_of_fields record fun _ => fields?_perm List.perm_middle
    refine (front _).trans (Agree.trans ?_ (front _).symm)
    by_cases readable : Legible names (some name :: (before ++ after).map (·.1))
    · exact legible readable
    · refine agree_of_fields record fun least => ?_
      rw [fields?_of_not_legible readable, fields?_of_not_legible readable]
  cases holds with
  | body => exact record rfl agree.inEnvelope
  | package => exact record rfl agree.inBody
  | versions => exact record rfl agree.inPackage
  | version name =>
    have read : Version.ofDoc? (.object inner) = Version.ofDoc? (.object inner') := agree
    have same : pair? Version.ofDoc? (some name, .object inner) =
        pair? Version.ofDoc? (some name, .object inner') := by
      rw [pair?, pair?, read]
    refine congrArg (Option.map _) ?_
    simp only [table?, List.mapM_append, List.mapM_cons, same]

end Inside

theorem Place.Holds.known {names : List String} {name : String} (holds : p.Holds name q)
    (record : p.names? = some names) : name ∈ names := by
  cases holds with
  | version => cases record
  | _ => cases record; decide

theorem Place.Holds.unique {name : String} {r : Place} (holds : p.Holds name q)
    (other : p.Holds name r) : q = r := by
  cases holds <;> cases other <;> rfl

theorem tidy_versions_iff :
    Tidy .versions (.object members) ↔ (members.map (·.1)).Nodup := by
  constructor
  · intro tidy
    cases tidy with
    | versions nodup => exact nodup
    | record record => cases record
  · exact .versions

theorem tidy_record_iff {names : List String} (record : p.names? = some names) :
    Tidy p (.object members) ↔
      ∀ name q d, p.Holds name q → (some name, d) ∈ members → Tidy q d := by
  constructor
  · intro tidy
    cases tidy with
    | versions => cases record
    | record _ each => exact each
  · exact .record record

theorem tidy_middle_iff {names : List String} (record : p.names? = some names) {name : String}
    {before after : List (Option String × Doc)} :
    Tidy p (.object (before ++ (some name, d) :: after)) ↔
      Tidy p (.object (before ++ after)) ∧ ∀ q, p.Holds name q → Tidy q d := by
  simp only [tidy_record_iff record, List.mem_append, List.mem_cons, Prod.mk.injEq,
    Option.some.injEq]
  constructor
  · refine fun each => ⟨fun other q e holds there => each other q e holds ?_, fun q holds =>
      each name q d holds (.inr (.inl ⟨rfl, rfl⟩))⟩
    exact there.imp_right .inr
  · rintro ⟨others, here⟩ other q e holds (there | ⟨rfl, rfl⟩ | there)
    · exact others other q e holds (.inl there)
    · exact here q holds
    · exact others other q e holds (.inr there)

theorem tidy_cons_iff {names : List String} (record : p.names? = some names) {name : String} :
    Tidy p (.object ((some name, d) :: members)) ↔
      Tidy p (.object members) ∧ ∀ q, p.Holds name q → Tidy q d := by
  rw [← List.nil_append ((some name, d) :: members), tidy_middle_iff record, List.nil_append]

/-- Variations keep a document tidy. -/
theorem Varies.tidy (varies : Varies p d d') (tidy : Tidy p d) : Tidy p d' := by
  induction varies with
  | @reordered p members members' perm =>
    cases tidy with
    | versions nodup => exact .versions ((perm.map _).nodup_iff.mp nodup)
    | record record each =>
      exact .record record fun name q d holds there => each name q d holds (perm.mem_iff.mpr there)
  | added record unknown d members =>
    exact (tidy_cons_iff record).mpr
      ⟨tidy, fun q holds => absurd (holds.known record) unknown⟩
  | replaced record unknown d d' before after =>
    rw [tidy_middle_iff record] at tidy ⊢
    exact ⟨tidy.1, fun q holds => absurd (holds.known record) unknown⟩
  | @inside p q name holds d d' varies before after ih =>
    cases tidy with
    | versions nodup => exact .versions (by simpa using nodup)
    | record record each =>
      have tidy := (tidy_middle_iff record).mp (.record record each)
      exact (tidy_middle_iff record).mpr
        ⟨tidy.1, fun r held => holds.unique held ▸ ih (tidy.2 q holds)⟩
  | listed fileless fresh =>
    exact .versions (List.nodup_cons.mpr ⟨fresh, tidy_versions_iff.mp tidy⟩)
  | begun fresh =>
    refine (tidy_cons_iff rfl).mpr ⟨tidy, fun q holds => ?_⟩
    cases holds
    exact .versions List.nodup_nil

/-- Variations make no difference to what is read. -/
theorem Varies.agree (varies : Varies p d d') (tidy : Tidy p d) : p.Agree d d' := by
  induction varies with
  | reordered perm =>
    cases tidy with
    | versions nodup => exact congrArg (Option.map _) (table?_perm nodup perm)
    | record record => exact Place.agree_of_fields record fun _ => fields?_perm perm
  | added record unknown d members =>
    exact Place.agree_of_fields record fun _ => (fields?_unknown unknown d).symm
  | replaced record unknown d d' before after =>
    refine Place.agree_of_fields record fun least => ?_
    rw [fields?_perm List.perm_middle, fields?_unknown unknown, fields?_perm List.perm_middle,
      fields?_unknown unknown]
  | @inside p q name holds d d' varies before after ih =>
    obtain ⟨⟨inner, rfl⟩, inner', rfl⟩ := varies.object
    refine holds.agree (ih ?_) before after
    cases tidy with
    | versions => cases holds; exact .record rfl fun _ _ _ holds => nomatch holds
    | record _ each => exact each name q _ holds (by simp)
  | listed fileless fresh =>
    obtain ⟨v, read, none⟩ := fileless.read
    have nodup := List.nodup_cons.mpr ⟨fresh, tidy_versions_iff.mp tidy⟩
    exact (filter_table?_cons (·.2.file.isSome) read (by simp [none]) nodup).symm
  | begun fresh => exact Place.agree_begun fresh

/-- No number of variations makes a difference to what is read. -/
theorem agree_of_reflTransGen (tidy : Tidy p d)
    (varied : Relation.ReflTransGen (Varies p) d d') : p.Agree d d' ∧ Tidy p d' := by
  induction varied with
  | refl => exact ⟨by cases p <;> exact rfl, tidy⟩
  | tail _ varies ih => exact ⟨ih.1.trans (varies.agree ih.2), varies.tidy ih.2⟩

/-- A version without a file offers none. -/
theorem Package.offers_filed (p : Package) : p.filed.offers = p.offers := by
  unfold offers filed
  rw [List.filterMap_filter]
  refine congrArg (List.filterMap · p.versions) (funext fun (version, entry) => ?_)
  cases read : entry.file <;> simp [read]

theorem Package.order_filed (p : Package) (kind : String) : p.filed.order kind = p.order kind := by
  unfold order
  rw [offers_filed]
  rfl

end Wire

open Json

theorem Event.ofEnvelope_filed (e : Wire.Envelope) : ofEnvelope e.filed = ofEnvelope e := by
  obtain ⟨kind, replyId, ⟨package, downloadedBytes, totalBytes⟩⟩ := e
  cases package with
  | none => rfl
  | some p =>
    simp only [ofEnvelope, Wire.Envelope.filed, Wire.Body.filed, Option.map_some, ofPackage,
      Wire.Package.order_filed]
    rfl

/-- A message in which no version is listed twice is the same event in every layout. -/
theorem Event.parse_of_varies {raw raw' : String} {d d' : Doc} (text : Doc.parse? raw = some d)
    (text' : Doc.parse? raw' = some d') (tidy : Wire.Tidy .envelope d)
    (varied : Relation.ReflTransGen (Wire.Varies .envelope) d d') :
    Event.parse raw' = Event.parse raw := by
  have event (raw : String) (d : Doc) (text : Doc.parse? raw = some d) : Event.parse raw =
      (((Wire.Envelope.ofDoc? d).map (·.filed)).map ofEnvelope).getD
        (.error (.format .invalidJson)) := by
    rw [Event.parse, text, Option.bind_some]
    cases Wire.Envelope.ofDoc? d with
    | none => rfl
    | some e => exact (ofEnvelope_filed e).symm
  have agree : (Wire.Envelope.ofDoc? d).map (·.filed) = (Wire.Envelope.ofDoc? d').map (·.filed) :=
    (Wire.agree_of_reflTransGen tidy varied).1
  rw [event raw d text, event raw' d' text', agree]

end OtaAgent
