import OtaAgent.Proofs.Text.Utf8
import OtaAgent.Text.Segment

set_option autoImplicit false

namespace OtaAgent.Text.Segment

theorem digit?_toUpper_hexDigit {n : Nat} (small : n < 16) :
    digit? 16 (hexDigit n).toUpper = some n := by
  revert n
  decide

theorem isPlain_toUpper_hexDigit {n : Nat} (small : n < 16) :
    isPlain (hexDigit n).toUpper = true := by
  revert n
  decide

theorem decode?_escapeByte (b : UInt8) (rest : List Char) :
    decode? (escapeByte b ++ rest) = (decode? rest).map (b :: ·) := by
  have byte : b.toNat < 256 := b.toNat_lt
  have whole : b.toNat / 16 * 16 + b.toNat % 16 = b.toNat := by omega
  simp only [escapeByte, List.cons_append, List.nil_append, decode?,
    digit?_toUpper_hexDigit (show b.toNat / 16 < 16 by omega),
    digit?_toUpper_hexDigit (show b.toNat % 16 < 16 by omega), Option.bind_eq_bind,
    Option.bind_some, whole, UInt8.ofNat_toNat]
  cases decode? rest <;> rfl

theorem decode?_flatMap_escapeByte (bytes : Bytes) (rest : List Char) :
    decode? (bytes.flatMap escapeByte ++ rest) = (decode? rest).map (bytes ++ ·) := by
  induction bytes with
  | nil => simp
  | cons b bytes ih =>
    rw [List.flatMap_cons, List.append_assoc, decode?_escapeByte, ih, Option.map_map]
    rfl

theorem decode?_encodeChar (c : Char) (rest : List Char) :
    decode? (encodeChar c ++ rest) = (decode? rest).map (String.utf8EncodeChar c ++ ·) := by
  unfold encodeChar
  split
  · rename_i plain
    have other : c ≠ '%' := by
      rintro rfl
      revert plain
      decide
    rw [List.singleton_append, decode?, if_neg other]
    simp [other]
  · exact decode?_flatMap_escapeByte _ rest

theorem decode?_encodeChars (cs : List Char) :
    decode? (cs.flatMap encodeChar) = some (Utf8.encodeChars cs) := by
  induction cs with
  | nil => rfl
  | cons c cs ih =>
    rw [List.flatMap_cons, decode?_encodeChar, ih]
    rfl

/-- A text is read back from the segment that it is written as. -/
theorem decode?_encode (s : String) : decode? (encode s).toList = some (Utf8.encode s) := by
  rw [encode, String.toList_ofList, decode?_encodeChars, Utf8.encode]

theorem encode_injective : Function.Injective encode := by
  intro s t same
  have read := decode?_encode s
  rw [same, decode?_encode] at read
  exact Utf8.encode_injective (Option.some.inj read).symm

/-- What stands for itself, and the sign that every other byte is marked with. -/
theorem isPlain_of_mem_encode {s : String} {c : Char} (among : c ∈ (encode s).toList) :
    isPlain c = true ∨ c = '%' := by
  rw [encode, String.toList_ofList, List.mem_flatMap] at among
  obtain ⟨d, -, among⟩ := among
  unfold encodeChar at among
  split at among
  · rename_i plain
    exact .inl (List.mem_singleton.mp among ▸ plain)
  · obtain ⟨b, -, among⟩ := List.mem_flatMap.mp among
    have byte : b.toNat < 256 := b.toNat_lt
    simp only [escapeByte, List.mem_cons, List.not_mem_nil, or_false] at among
    rcases among with sign | high | low
    · exact .inr sign
    · exact .inl (high ▸ isPlain_toUpper_hexDigit (by omega))
    · exact .inl (low ▸ isPlain_toUpper_hexDigit (by omega))

/-- The characters that divide a url do not come from a segment. -/
theorem notMem_encode (s : String) {c : Char} (divides : c ∈ ['/', '?', '#']) :
    c ∉ (encode s).toList := by
  intro among
  have allowed := isPlain_of_mem_encode among
  simp only [List.mem_cons, List.not_mem_nil, or_false] at divides
  rcases divides with rfl | rfl | rfl <;> revert allowed <;> decide

end OtaAgent.Text.Segment
