import OtaAgent.Proofs.Files.Content
import OtaAgent.Proofs.Json.Judging
import OtaAgent.Proofs.Session.Serving

set_option autoImplicit false

namespace OtaAgent

/-- The type of the messages that stand for the event. -/
def Event.kind : Event → String
  | query _ _ _ => Wire.queryPackage
  | offered _ _ => Wire.readyDownload
  | prepare _ => Wire.prepareUpdate
  | install _ => Wire.readyUpdate
  | confirmed _ _ => Wire.confirmUpdate
  | downloading _ _ _ _ => Wire.downloadReport
  | unhandled kind => kind

namespace Event

theorem kind_of_map {α : Type} {f : α → Event} {read : Except Error α} {event : Event}
    {kind : String} (mapped : read.map f = .ok event) (each : ∀ a, (f a).kind = kind) :
    event.kind = kind := by
  cases read with
  | error e => cases mapped
  | ok a =>
    cases mapped
    exact each a

/-- The event of a message is of the type that the message has. -/
theorem kind_ofPackage {e : Wire.Envelope} {p : Wire.Package} {event : Event}
    (handled : e.kind ∈ Wire.handled) (read : ofPackage e p = .ok event) :
    event.kind = e.kind := by
  unfold ofPackage at read
  by_cases query : e.kind = Wire.queryPackage
  · rw [if_pos query] at read
    cases read
    exact query.symm
  rw [if_neg query] at read
  by_cases offered : e.kind = Wire.readyDownload
  · rw [if_pos offered] at read
    exact kind_of_map read fun _ => offered.symm
  rw [if_neg offered] at read
  by_cases prepare : e.kind = Wire.prepareUpdate
  · rw [if_pos prepare] at read
    exact kind_of_map read fun _ => prepare.symm
  rw [if_neg prepare] at read
  by_cases install : e.kind = Wire.readyUpdate
  · rw [if_pos install] at read
    exact kind_of_map read fun _ => install.symm
  rw [if_neg install] at read
  by_cases confirmed : e.kind = Wire.confirmUpdate
  · rw [if_pos confirmed] at read
    exact kind_of_map read fun _ => confirmed.symm
  rw [if_neg confirmed] at read
  -- Of the types that stand for an event of their own only the last one is left.
  have downloading : e.kind = Wire.downloadReport := by
    simpa [Wire.handled, query, offered, prepare, install, confirmed] using handled
  exact kind_of_map read fun _ => downloading.symm

theorem kind_ofEnvelope {e : Wire.Envelope} {event : Event} (read : ofEnvelope e = .ok event) :
    event.kind = e.kind := by
  unfold ofEnvelope at read
  split at read
  · rename_i handled
    split at read
    · exact kind_ofPackage handled read
    · cases read
  · cases read
    rfl

theorem parse_eq_ok {raw : String} {event : Event} (parsed : parse raw = .ok event) :
    ∃ d e, Json.Doc.parse? raw = some d ∧ Wire.Envelope.ofDoc? d = some e ∧
      event.kind = e.kind := by
  unfold parse at parsed
  split at parsed
  · rename_i e read
    obtain ⟨d, text, known⟩ := Option.bind_eq_some_iff.mp read
    exact ⟨d, e, text, known, kind_ofEnvelope parsed⟩
  · cases parsed

end Event

open Json

/-- The message is given as an object, and all of it makes a value. -/
def Json.Doc.IsPlain (d : Doc) : Prop := (∃ members, d = .object members) ∧ d.Fits maxDepth

namespace Wire.Envelope

variable {members : List (Option String × Doc)} {e : Envelope}

/-- The type of a message that is given as an object stands there once, under its name. -/
theorem type_of_ofDoc? (read : ofDoc? (.object members) = some e) :
    (members.map (·.1)).count (some "type") ≤ 1 ∧
      docMember? members "type" = some (.string (some e.kind)) := by
  unfold ofDoc? at read
  obtain ⟨fields, given, read⟩ := Option.bind_eq_some_iff.mp read
  obtain ⟨once, rfl⟩ := fields?_object given
  refine ⟨once "type" (by decide), ?_⟩
  simp only [List.map_cons, List.map_nil, Option.bind_eq_bind, Option.bind_eq_some_iff,
    Option.pure_def, Option.some.injEq] at read
  obtain ⟨kind, required, replyId, -, body, -, rfl⟩ := read
  cases member : docMember? members "type" with
  | none => rw [member] at required; cases required
  | some item =>
    rw [member] at required
    cases item with
    | string s => cases required; rfl
    | _ => cases required

/-- A message that is read as a value has the type that it has when it is read as a record. -/
theorem member?_type {v : Json} (read : ofDoc? (.object members) = some e)
    (value : (Doc.object members).toJson? = some v) : v.member? "type" = some (.string e.kind) := by
  obtain ⟨once, typed⟩ := type_of_ofDoc? read
  rw [member?_toJson? value once, typed]
  rfl

end Wire.Envelope

namespace Session

variable {σ : Type}

/-- The agent is offered a message under the type of its event if the message is given as an object
all of which makes a value, and else under no type at all; never under another type. -/
theorem notices_of_parse {raw : String} {event : Event} (parsed : Event.parse raw = .ok event)
    (d : Device σ) (s : Station σ) :
    ∃ doc, Doc.parse? raw = some doc ∧
      (doc.IsPlain → messageKind? raw = some event.kind) ∧
      (¬ doc.IsPlain → messageKind? raw = none) ∧
      ∃ taken, (received d s (.message raw)).notices =
        s.notices ++ [(.message ((messageKind? raw).getD ""), taken)] := by
  obtain ⟨doc, e, text, known, kind⟩ := Event.parse_eq_ok parsed
  refine ⟨doc, text, ?plain, ?other, _, notices_received d s (.message raw)⟩
  all_goals rw [messageKind?, Json.parse?, text, Option.bind_some]
  case plain =>
    rintro ⟨⟨members, rfl⟩, fits⟩
    obtain ⟨v, value⟩ := Option.isSome_iff_exists.mp ((Doc.isSome_toJsonAt? _ _).mpr fits)
    have typed := Wire.Envelope.member?_type known value
    rw [Doc.toJson?, value, Option.bind_some, typed, kind]
    rfl
  case other =>
    intro notPlain
    cases value : doc.toJson? with
    | none => rfl
    | some v =>
      rw [Option.bind_some]
      cases there : v.member? "type" with
      | none => rfl
      | some m =>
        have fits := (Doc.isSome_toJsonAt? maxDepth doc).mp (Option.isSome_of_mem value)
        exact absurd ⟨Doc.eq_object_of_member? value there, fits⟩ notPlain

theorem notices_of_parse_query :
    let raw := "\x7b\"type\": \"xl4.query-package\", \"body\": \x7b\"package\": " ++
      "\x7b\"type\": \"ecu\", \"name\": \"app\"\x7d\x7d\x7d"
    let d : Device Unit := ⟨.minimal, ⟨⟨"/versions"⟩, ⟨"/backups"⟩⟩, ⟨"ecu", none, true⟩⟩
    let s : Station Unit := .fresh () (.empty []) .accepting
    Event.parse raw = .ok (.query "ecu" "app" none) ∧
      messageKind? raw = some Wire.queryPackage ∧ ∃ doc, Doc.parse? raw = some doc ∧
        (doc.IsPlain → messageKind? raw = some Wire.queryPackage) ∧
        (¬ doc.IsPlain → messageKind? raw = none) ∧
        ∃ taken, (received d s (.message raw)).notices =
          s.notices ++ [(.message ((messageKind? raw).getD ""), taken)] := by
  intro raw d s
  have parsed : Event.parse raw = .ok (.query "ecu" "app" none) :=
    Files.eq_ok_of_toOption (by decide +kernel)
  exact ⟨parsed, by decide +kernel, notices_of_parse parsed d s⟩

/-- A member that nothing reads, with half of a character in it, keeps the type of the message from
the agent, but not the event from the course. -/
theorem notices_untyped :
    let raw := "\x7b\"type\": \"xl4.ready-download\", \"note\": \"\\ud83d\", \"body\": " ++
      "\x7b\"package\": \x7b\"type\": \"ecu\", \"name\": \"app\", \"version\": \"2\"\x7d\x7d\x7d"
    let d : Device Unit := ⟨.minimal, ⟨⟨"/versions"⟩, ⟨"/backups"⟩⟩, ⟨"ecu", none, true⟩⟩
    let after := received d (.fresh () (.empty []) .accepting) (.message raw)
    Event.parse raw = .ok (.offered "ecu" ⟨"app", "2"⟩) ∧ messageKind? raw = none ∧
      after.notices = [(.message "", .ok ())] ∧ after.standing.phase = .awaitingTransfer := by
  intro raw d after
  have parsed : Event.parse raw = .ok (.offered "ecu" ⟨"app", "2"⟩) :=
    Files.eq_ok_of_toOption (by decide +kernel)
  exact ⟨parsed, by decide +kernel, by decide +kernel, by decide +kernel⟩

end Session
end OtaAgent
