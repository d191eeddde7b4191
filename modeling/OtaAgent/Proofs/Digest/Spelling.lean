import OtaAgent.Proofs.Digest

set_option autoImplicit false

namespace OtaAgent

namespace Text

def IsHex (c : Char) : Prop :=
  '0' ≤ c ∧ c ≤ '9' ∨ 'a' ≤ c ∧ c ≤ 'f' ∨ 'A' ≤ c ∧ c ≤ 'F'

instance (c : Char) : Decidable (IsHex c) := by unfold IsHex; infer_instance

theorem lt_of_isHex {c : Char} (digit : IsHex c) : c.toNat < 128 := by
  have among (low high : Char) : low ≤ c ∧ c ≤ high ↔ low.toNat ≤ c.toNat ∧ c.toNat ≤ high.toNat :=
    Iff.rfl
  simp only [IsHex, among, Char.reduceToNat] at digit
  omega

theorem lt_of_digit? {c : Char} {n : Nat} (read : digit? 16 c = some n) :
    n < 16 ∧ c.toNat < 128 := by
  have among (low high : Char) : low ≤ c ∧ c ≤ high ↔ low.toNat ≤ c.toNat ∧ c.toNat ≤ high.toNat :=
    Iff.rfl
  simp only [digit?, among, Char.reduceToNat, Option.ite_none_right_eq_some,
    Option.some.injEq] at read
  obtain ⟨small, rfl⟩ := read
  refine ⟨small, ?_⟩
  split at small
  case isTrue => omega
  split at small
  case isTrue => omega
  split at small
  case isTrue => omega
  case isFalse => omega

/-- The digits of a number below 16 are those that its lower-case digit stands for. -/
theorem digit?_eq_some_iff {c : Char} {n : Nat} :
    digit? 16 c = some n ↔ n < 16 ∧ IsHex c ∧ c.toLower = hexDigit n := by
  have ascii : ∀ k : Fin 128, ∀ n : Fin 16, digit? 16 (Char.ofNat k) = some n.val ↔
      IsHex (Char.ofNat k) ∧ (Char.ofNat k).toLower = hexDigit n := by decide +kernel
  have self : Char.ofNat c.toNat = c := Char.ofNat_toNat c
  constructor
  · intro read
    obtain ⟨small, low⟩ := lt_of_digit? read
    have here := ascii ⟨c.toNat, low⟩ ⟨n, small⟩
    simp only [self] at here
    exact ⟨small, here.mp read⟩
  · rintro ⟨small, digit, spelled⟩
    have here := ascii ⟨c.toNat, lt_of_isHex digit⟩ ⟨n, small⟩
    simp only [self] at here
    exact here.mpr ⟨digit, spelled⟩

end Text

namespace Digest

open Text (IsHex hexDigit digit? unsigned? natural? trim trimChars)

/-- `cs` with a zero for each `+` that stands first in a pair. -/
def signless : List Char → List Char
  | a :: b :: rest => (if a = '+' then '0' else a) :: b :: signless rest
  | cs => cs

/-- `cs` are 64 hexadecimal digits, of either case, and spell `d`. -/
structure SpelledBy (d : Digest) (cs : List Char) : Prop where
  length : cs.length = 64
  digits : ∀ c ∈ cs, IsHex c
  spells : cs.map Char.toLower = d.hexChars

theorem length_signless (cs : List Char) : (signless cs).length = cs.length := by
  fun_induction signless cs with
  | case1 a b rest ih => simp only [List.length_cons, ih]
  | case2 => rfl

/-- A `+` is no digit, so that digits have none to be replaced. -/
theorem signless_of_isHex {cs : List Char} (digits : ∀ c ∈ cs, IsHex c) : signless cs = cs := by
  fun_induction signless cs with
  | case1 a b rest ih =>
    have plain : a ≠ '+' := by
      rintro rfl
      exact absurd (digits '+' List.mem_cons_self) (by decide)
    rw [if_neg plain, ih fun c among => digits c (by simp [among])]
  | case2 => rfl

theorem lt_of_isHex_signless {cs : List Char} (digits : ∀ c ∈ signless cs, IsHex c) :
    ∀ c ∈ cs, c.toNat < 128 := by
  fun_induction signless cs with
  | case1 a b rest ih =>
    simp only [List.forall_mem_cons] at digits ⊢
    obtain ⟨first, second, others⟩ := digits
    refine ⟨?_, Text.lt_of_isHex second, ih others⟩
    by_cases sign : a = '+'
    · rw [sign]; decide
    · rw [if_neg sign] at first
      exact Text.lt_of_isHex first
  | case2 => exact fun c among => Text.lt_of_isHex (digits c among)

/-- A pair is read as the two digits of its number, of which a `+` may stand for the first. -/
theorem unsigned?_pair {a b : Char} {n : Nat} :
    unsigned? 16 [a, b] = some n ↔
      ∃ x y, digit? 16 (if a = '+' then '0' else a) = some x ∧ digit? 16 b = some y ∧
        x * 16 + y = n := by
  by_cases sign : a = '+'
  · subst sign
    have zero : digit? 16 '0' = some 0 := by decide
    cases second : digit? 16 b <;> simp [unsigned?, natural?, Text.ofDigits, zero, second]
  · have whole : unsigned? 16 [a, b] = natural? 16 [a, b] := by
      rw [unsigned?]
      rintro cs ⟨rfl⟩
      exact sign rfl
    rw [whole, if_neg sign]
    cases first : digit? 16 a <;> cases second : digit? 16 b <;>
      simp [natural?, Text.ofDigits, first, second]

theorem pairs?_eq_some_iff {cs : List Char} {bytes : Bytes} :
    pairs? cs = some bytes ↔ (∀ c ∈ signless cs, IsHex c) ∧ (signless cs).map Char.toLower =
      bytes.flatMap fun b => [hexDigit (b.toNat / 16), hexDigit (b.toNat % 16)] := by
  fun_induction pairs? cs generalizing bytes with
  | case1 => cases bytes <;> simp [signless]
  | case2 a b rest ih =>
    simp only [signless, Option.bind_eq_bind, Option.bind_eq_some_iff, unsigned?_pair,
      List.forall_mem_cons, List.map_cons]
    constructor
    · rintro ⟨n, ⟨x, y, readX, readY, rfl⟩, more, readMore, same⟩
      cases same
      obtain ⟨smallX, digitX, spelledX⟩ := Text.digit?_eq_some_iff.mp readX
      obtain ⟨smallY, digitY, spelledY⟩ := Text.digit?_eq_some_iff.mp readY
      obtain ⟨digits, spelled⟩ := ih.mp readMore
      refine ⟨⟨digitX, digitY, digits⟩, ?_⟩
      rw [List.flatMap_cons, UInt8.toNat_ofNat', ← spelled, spelledX, spelledY,
        show (x * 16 + y) % 2 ^ 8 / 16 = x by omega, show (x * 16 + y) % 2 ^ 8 % 16 = y by omega]
      rfl
    · rintro ⟨⟨digitX, digitY, digits⟩, spelled⟩
      cases bytes with
      | nil => cases spelled
      | cons byte more =>
        have small : byte.toNat < 256 := byte.toNat_lt
        rw [List.flatMap_cons, List.cons_append, List.cons_append, List.nil_append,
          List.cons.injEq, List.cons.injEq] at spelled
        obtain ⟨spelledX, spelledY, spelledMore⟩ := spelled
        have readX := Text.digit?_eq_some_iff.mpr ⟨by omega, digitX, spelledX⟩
        have readY := Text.digit?_eq_some_iff.mpr ⟨by omega, digitY, spelledY⟩
        refine ⟨_, ⟨_, _, readX, readY, rfl⟩, more, ih.mpr ⟨digits, spelledMore⟩, ?_⟩
        rw [show byte.toNat / 16 * 16 + byte.toNat % 16 = byte.toNat by omega, UInt8.ofNat_toNat]
        rfl
  | case3 cs notEmpty notPair =>
    -- One character is left, while every byte is spelled by two.
    constructor
    · intro read
      cases read
    · rintro ⟨-, spelled⟩
      match cs with
      | [] => exact absurd rfl notEmpty
      | [c] => cases bytes <;> simp [signless] at spelled
      | a :: b :: rest => exact absurd rfl (notPair a b rest)

theorem ofBytes?_eq_some_iff {bytes : Bytes} {d : Digest} :
    ofBytes? bytes = some d ↔ bytes = d.bytes := by
  constructor
  · intro read
    obtain ⟨_, whole⟩ := Option.dite_none_right_eq_some.mp read
    cases whole
    rfl
  · rintro rfl
    exact ofBytes?_bytes d

theorem ofHex?_eq_some_iff {cs : List Char} {d : Digest} :
    ofHex? cs = some d ↔ d.SpelledBy (signless cs) := by
  simp only [ofHex?, Option.ite_none_right_eq_some, Option.bind_eq_some_iff, ofBytes?_eq_some_iff]
  constructor
  · rintro ⟨⟨length, -⟩, bytes, read, rfl⟩
    obtain ⟨digits, spelled⟩ := pairs?_eq_some_iff.mp read
    exact ⟨(length_signless cs).trans length, digits, spelled⟩
  · rintro ⟨length, digits, spelled⟩
    refine ⟨⟨(length_signless cs).symm.trans length, ?_⟩, _,
      pairs?_eq_some_iff.mpr ⟨digits, spelled⟩, rfl⟩
    simp only [List.all_eq_true, decide_eq_true_eq]
    exact lt_of_isHex_signless digits

/-- The base64 text of a digest is too short to be the digits of one. -/
theorem length_text (d : Digest) : d.text.toList.length = 44 := by
  rw [show d.text.toList = Text.Base64.encodeChars d.bytes from String.toList_ofList,
    Text.Base64.length_encodeChars, d.size]

theorem base64_eq_some_iff {s : String} {d : Digest} :
    (Text.Base64.decodeChars? (trimChars s.toList)).bind ofBytes? = some d ↔ trim s = d.text := by
  have chars : trim s = d.text ↔ trimChars s.toList = Text.Base64.encodeChars d.bytes := by
    rw [trim, text, Text.Base64.encode, String.ofList_inj]
  simp only [chars, Option.bind_eq_some_iff, Text.Base64.decodeChars?_eq_some_iff,
    ofBytes?_eq_some_iff]
  constructor
  · rintro ⟨bytes, written, rfl⟩
    exact written
  · intro written
    exact ⟨d.bytes, written, rfl⟩

/-- The texts that are read as `d`: what it is written as, the digits that spell it, and such
digits with `+` for the zero that some pairs begin with. -/
theorem parse?_eq_some_iff (s : String) (d : Digest) :
    (parse? s = some d ↔ trim s = d.text ∨ d.SpelledBy (trim s).toList ∨
        signless (trim s).toList ≠ (trim s).toList ∧ d.SpelledBy (signless (trim s).toList)) ∧
      parse? d.text = some d ∧ d.text.toList.length = 44 := by
  refine ⟨?_, parse?_text d, length_text d⟩
  have spelled : d.SpelledBy (trim s).toList ∨ signless (trim s).toList ≠ (trim s).toList ∧
      d.SpelledBy (signless (trim s).toList) ↔ d.SpelledBy (signless (trim s).toList) := by
    constructor
    · rintro (plain | ⟨-, signed⟩)
      · rwa [signless_of_isHex plain.digits]
      · exact signed
    · intro signed
      by_cases plain : signless (trim s).toList = (trim s).toList
      · exact .inl (plain ▸ signed)
      · exact .inr ⟨plain, signed⟩
  rw [spelled, ← ofHex?_eq_some_iff, ← base64_eq_some_iff, trim, String.toList_ofList, parse?]
  split
  case h_1 other read =>
    -- What base64 reads is not as long as the digits of a digest.
    have short : (trimChars s.toList).length = 44 := by
      rw [← length_text other, ← base64_eq_some_iff.mp read, trim, String.toList_ofList]
    have notHex : ofHex? (trimChars s.toList) = none := by
      rw [ofHex?, if_neg (by omega)]
    rw [read, notHex]
    simp
  case h_2 read =>
    rw [read]
    simp

/-- A text of 64 characters that is neither form of a digest and is read as one. -/
theorem parse?_signed :
    let s := String.ofList (List.replicate 32 ['+', '0']).flatten
    let zero : Digest := ⟨List.replicate 32 0, rfl⟩
    parse? s = some zero ∧
      ∀ d : Digest, trim s ≠ d.text ∧ ¬ d.SpelledBy (trim s).toList := by
  refine ⟨by decide +kernel, fun d => ⟨fun same => ?_, fun spelled => ?_⟩⟩
  · have lengths := congrArg (fun s => s.toList.length) same
    rw [length_text] at lengths
    revert lengths
    decide +kernel
  · exact absurd (spelled.digits '+' (by decide +kernel)) (by decide)

end Digest
end OtaAgent
