import Mathlib.Data.List.Forall2
import OtaAgent.Link
import OtaAgent.Proofs.Json.Values
import OtaAgent.Proofs.Text.Utf8

set_option autoImplicit false

namespace OtaAgent.Link

open Text (Utf8.encode Utf8.decode?)

theorem notMem_encode_compact (v : Json) {b : UInt8} (control : b.toNat < 32) :
    b ∉ Utf8.encode v.compact := by
  refine Text.Utf8.notMem_encodeChars (by omega) fun c among => ?_
  rw [Json.compact, String.toList_ofList] at among
  have printable := Json.printable_compactChars v c among
  omega

/-- A line ends where it has been framed, and the stream goes on behind it. -/
theorem cut_append {line : Bytes} (whole : newLine ∉ line) (rest : Bytes) :
    cut (line ++ newLine :: rest) = (line :: (cut rest).1, (cut rest).2) := by
  induction line with
  | nil => rfl
  | cons b line ih =>
    rw [List.mem_cons, not_or] at whole
    rw [List.cons_append, cut, ih whole.2]
    simp only [if_neg (Ne.symm whole.1)]

theorem cut_frames (vs : List Json) :
    cut (vs.flatMap frame) = (vs.map fun v => Utf8.encode v.compact, []) := by
  induction vs with
  | nil => rfl
  | cons v vs ih =>
    rw [List.flatMap_cons, frame, List.append_assoc, List.singleton_append,
      cut_append (notMem_encode_compact v (by decide)), ih]
    rfl

theorem dropReturn_of_notMem {line : Bytes} (plain : carriageReturn ∉ line) :
    dropReturn line = line := by
  rw [dropReturn, if_neg]
  intro last
  exact plain (List.mem_of_getLast? last)

theorem texts_map_encode (ss : List String) : texts (ss.map Utf8.encode) = ss := by
  induction ss with
  | nil => rfl
  | cons s ss ih => rw [List.map_cons, texts, Text.Utf8.decode?_encode, ih]

theorem lines_frames (vs : List Json) : lines (vs.flatMap frame) = vs.map Json.compact := by
  have kept : (vs.map fun v => Utf8.encode v.compact).map dropReturn =
      (vs.map Json.compact).map Utf8.encode := by
    rw [List.map_map, List.map_map]
    refine List.map_congr_left fun v _ => ?_
    exact dropReturn_of_notMem (notMem_encode_compact v (by decide))
  rw [lines, cut_frames]
  simp only [kept, if_true, List.append_nil, texts_map_encode]

theorem isBlank_compact_object (members : List (String × Json)) :
    isBlank (Json.object members).compact = false := by
  rw [isBlank, Json.compact, String.toList_ofList, Json.compactChars]
  rfl

/-- The bytes of envelopes are received as one arrival each, in their order. -/
theorem arrivals_flatMap_frame {vs : List Json}
    (objects : ∀ v ∈ vs, ∃ members, v = .object members) :
    arrivals (vs.flatMap frame) = vs.map fun v => arrivalOf v.compact := by
  have full : ∀ line ∈ vs.map Json.compact, (!isBlank line) = true := by
    intro line among
    obtain ⟨v, inside, rfl⟩ := List.mem_map.mp among
    obtain ⟨members, rfl⟩ := objects v inside
    rw [isBlank_compact_object]
    rfl
  rw [arrivals, lines_frames, List.filter_eq_self.mpr full, List.map_map]
  rfl

/-- The envelope says of the presence of the device manager that it is `connected`. -/
def Announces (v : Json) (connected : Bool) : Prop :=
  v.member? "type" = some (.string Wire.presence) ∧
    ∃ body, v.member? "body" = some body ∧ body.member? "connected" = some (.bool connected)

/-- What arrives for an envelope: its presence, or else a text of it. -/
inductive Delivers (v : Json) : Arrival → Prop
  | presence (connected : Bool) (announced : Announces v connected) :
      Delivers v (.presence connected)
  | message (line : String) (silent : ∀ connected, ¬ Announces v connected)
      (read : Json.parse? line = some v) : Delivers v (.message line)

theorem presence?_eq_some_iff {line : String} {v : Json} (read : Json.parse? line = some v)
    (connected : Bool) : presence? line = some connected ↔ Announces v connected := by
  simp only [presence?, read, Option.bind_eq_bind, Option.bind_some, Announces]
  constructor
  · intro said
    obtain ⟨kind, typed, said⟩ := Option.bind_eq_some_iff.mp said
    obtain ⟨name, named, said⟩ := Option.bind_eq_some_iff.mp said
    split at said
    · rename_i isPresence
      obtain ⟨body, there, said⟩ := Option.bind_eq_some_iff.mp said
      obtain ⟨flag, given, set⟩ := Option.bind_eq_some_iff.mp said
      have text : kind = .string name := by cases kind <;> simp_all [Json.string?]
      have bool : flag = .bool connected := by cases flag <;> simp_all [Json.bool?]
      exact ⟨by rw [typed, text, isPresence], body, there, by rw [given, bool]⟩
    · cases said
  · rintro ⟨typed, body, there, given⟩
    simp [typed, there, given, Json.string?, Json.bool?]

theorem delivers_arrivalOf {v : Json} (read : Json.parse? v.compact = some v) :
    Delivers v (arrivalOf v.compact) := by
  have announced := presence?_eq_some_iff read
  rw [arrivalOf]
  cases said : presence? v.compact with
  | some connected => exact .presence connected ((announced connected).mp said)
  | none =>
    refine .message _ (fun connected announces => ?_) read
    rw [(announced connected).mpr announces] at said
    cases said

/-- Envelopes that are sent over a connection are received one for one and in their order, each of
them as the presence that it tells of or as a text that has it for its value. Each of them ends with
the only line end in its bytes. -/
theorem delivers_frames {vs : List Json}
    (each : ∀ v ∈ vs, (∃ members, v = .object members) ∧ v.Bounded Json.maxDepth) :
    (∀ v ∈ vs, ∃ line, frame v = line ++ [newLine] ∧ newLine ∉ line) ∧
      (vs.flatMap frame).count newLine = vs.length ∧
      List.Forall₂ Delivers vs (arrivals (vs.flatMap frame)) := by
  have whole (v : Json) : newLine ∉ Utf8.encode v.compact := notMem_encode_compact v (by decide)
  refine ⟨fun v _ => ⟨_, rfl, whole v⟩, ?count, ?delivered⟩
  case count =>
    have one (v : Json) : (frame v).count newLine = 1 := by
      rw [frame, List.count_append, List.count_eq_zero.mpr (whole v)]
      rfl
    simp [List.count_flatMap, Function.comp_def, one]
  case delivered =>
    rw [arrivals_flatMap_frame fun v inside => (each v inside).1, List.forall₂_map_right_iff,
      List.forall₂_same]
    exact fun v inside => delivers_arrivalOf (each v inside).2.parse?_compact

/-- The presence of the device manager, and an envelope with line ends in a text of it. -/
theorem delivers_frames_two :
    let here : Json := .object [("body", .object [("connected", .bool true)]),
      ("type", .string Wire.presence)]
    let report : Json := .object [("note", .string "one\r\ntwo"), ("size", .ofInt (2 ^ 64 - 1)),
      ("type", .string Wire.logReport)]
    let bytes := [here, report].flatMap frame
    here.Bounded Json.maxDepth ∧ report.Bounded Json.maxDepth ∧ bytes.count newLine = 2 ∧
      List.Forall₂ Delivers [here, report] (arrivals bytes) ∧
      arrivals bytes = [.presence true, .message report.compact] := by
  intro here report bytes
  have presence : here.Bounded Json.maxDepth := by
    refine .object _ _ (by decide) fun m inside => ?_
    simp only [List.mem_cons, List.not_mem_nil, or_false] at inside
    rcases inside with rfl | rfl
    · refine .object _ _ (by decide) fun m inside => ?_
      obtain rfl := List.mem_singleton.mp inside
      exact .bool _ _
    · exact .string _ _
  have log : report.Bounded Json.maxDepth := by
    refine .object _ _ (by decide) fun m inside => ?_
    simp only [List.mem_cons, List.not_mem_nil, or_false] at inside
    rcases inside with rfl | rfl | rfl
    · exact .string _ _
    · exact .number _ _ (by decide) (by decide)
    · exact .string _ _
  have each : ∀ v ∈ [here, report], (∃ members, v = .object members) ∧ v.Bounded Json.maxDepth := by
    simp only [List.forall_mem_cons, List.not_mem_nil, false_implies, implies_true, and_true]
    exact ⟨⟨⟨_, rfl⟩, presence⟩, ⟨_, rfl⟩, log⟩
  obtain ⟨-, lineEnds, delivered⟩ := delivers_frames each
  exact ⟨presence, log, lineEnds, delivered, by decide +kernel⟩

end OtaAgent.Link
