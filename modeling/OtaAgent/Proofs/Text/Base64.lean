import OtaAgent.Text.Base64
import OtaAgent.Text.Blank

set_option autoImplicit false

namespace OtaAgent.Text.Base64

theorem sextet?_letter {n : Nat} (small : n < 64) : sextet? (letter n) = some n := by
  have all : ∀ n : Fin 64, sextet? (letter n.val) = some n.val := by decide
  exact all ⟨n, small⟩

theorem letter_ne_padding {n : Nat} (small : n < 64) : letter n ≠ '=' := by
  have all : ∀ n : Fin 64, letter n.val ≠ '=' := by decide
  exact all ⟨n, small⟩

/-- Each letter stands for one sextet only. -/
theorem letter_of_sextet? {c : Char} {n : Nat} (read : sextet? c = some n) :
    n < 64 ∧ letter n = c := by
  have among (low high : Char) : low ≤ c ∧ c ≤ high ↔ low.toNat ≤ c.toNat ∧ c.toNat ≤ high.toNat :=
    Iff.rfl
  have self : Char.ofNat c.toNat = c := Char.ofNat_toNat c
  simp only [sextet?, among, Char.reduceToNat] at read
  split at read
  case isTrue upper =>
    cases read
    refine ⟨by omega, ?_⟩
    rw [letter, if_pos (by omega), show 65 + (c.toNat - 65) = c.toNat by omega, self]
  split at read
  case isTrue lower =>
    cases read
    refine ⟨by omega, ?_⟩
    rw [letter, if_neg (by omega), if_pos (by omega),
      show 97 + (c.toNat - 71 - 26) = c.toNat by omega, self]
  split at read
  case isTrue digit =>
    cases read
    refine ⟨by omega, ?_⟩
    rw [letter, if_neg (by omega), if_neg (by omega), if_pos (by omega),
      show 48 + (c.toNat + 4 - 52) = c.toNat by omega, self]
  split at read
  case isTrue plus => cases read; exact ⟨by decide, plus.symm⟩
  split at read
  case isTrue slash => cases read; exact ⟨by decide, slash.symm⟩
  case isFalse => cases read

section Groups

variable {x y z w : Nat}

/-- A whole group stands for its three bytes, whatever follows it. -/
theorem decodeChars?_whole (smallX : x < 64) (smallY : y < 64) (smallZ : z < 64) (smallW : w < 64)
    (more : List Char) :
    decodeChars? (letter x :: letter y :: letter z :: letter w :: more) =
      (decodeChars? more).map fun bytes => UInt8.ofNat (x * 4 + y / 16) ::
        UInt8.ofNat (y % 16 * 16 + z / 4) :: UInt8.ofNat (z % 4 * 64 + w) :: bytes := by
  have unpadded := letter_ne_padding smallW
  cases more with
  | nil =>
    simp only [decodeChars?, lastGroup?, sextet?_letter smallX, sextet?_letter smallY,
      sextet?_letter smallZ, sextet?_letter smallW, unpadded, and_false, if_false,
      Option.bind_eq_bind, Option.bind_some]
    rfl
  | cons head rest =>
    simp only [decodeChars?, sextet?_letter smallX, sextet?_letter smallY, sextet?_letter smallZ,
      sextet?_letter smallW, Option.bind_eq_bind, Option.bind_some]
    cases decodeChars? (head :: rest) <;> rfl

theorem decodeChars?_twoBytes (smallX : x < 64) (smallY : y < 64) (smallZ : z < 64)
    (zeros : z % 4 = 0) : decodeChars? [letter x, letter y, letter z, '='] =
      some [UInt8.ofNat (x * 4 + y / 16), UInt8.ofNat (y % 16 * 16 + z / 4)] := by
  simp only [decodeChars?, lastGroup?, sextet?_letter smallX, sextet?_letter smallY,
    sextet?_letter smallZ, letter_ne_padding smallZ, zeros, false_and, if_false, if_true,
    Option.bind_eq_bind, Option.bind_some]
  rfl

theorem decodeChars?_oneByte (smallX : x < 64) (smallY : y < 64) (zeros : y % 16 = 0) :
    decodeChars? [letter x, letter y, '=', '='] = some [UInt8.ofNat (x * 4 + y / 16)] := by
  simp only [decodeChars?, lastGroup?, sextet?_letter smallX, sextet?_letter smallY, zeros,
    and_self, if_true, Option.bind_eq_bind, Option.bind_some]
  rfl

theorem encodeChars_whole (smallX : x < 64) (smallY : y < 64) (smallZ : z < 64) (smallW : w < 64)
    (more : Bytes) :
    encodeChars (UInt8.ofNat (x * 4 + y / 16) :: UInt8.ofNat (y % 16 * 16 + z / 4) ::
        UInt8.ofNat (z % 4 * 64 + w) :: more) =
      letter x :: letter y :: letter z :: letter w :: encodeChars more := by
  simp only [encodeChars, UInt8.toNat_ofNat']
  rw [show (x * 4 + y / 16) % 2 ^ 8 / 4 = x by omega,
    show (x * 4 + y / 16) % 2 ^ 8 % 4 * 16 + (y % 16 * 16 + z / 4) % 2 ^ 8 / 16 = y by omega,
    show (y % 16 * 16 + z / 4) % 2 ^ 8 % 16 * 4 + (z % 4 * 64 + w) % 2 ^ 8 / 64 = z by omega,
    show (z % 4 * 64 + w) % 2 ^ 8 % 64 = w by omega]

theorem encodeChars_twoBytes (smallX : x < 64) (smallY : y < 64) (smallZ : z < 64)
    (zeros : z % 4 = 0) :
    encodeChars [UInt8.ofNat (x * 4 + y / 16), UInt8.ofNat (y % 16 * 16 + z / 4)] =
      [letter x, letter y, letter z, '='] := by
  simp only [encodeChars, UInt8.toNat_ofNat']
  rw [show (x * 4 + y / 16) % 2 ^ 8 / 4 = x by omega,
    show (x * 4 + y / 16) % 2 ^ 8 % 4 * 16 + (y % 16 * 16 + z / 4) % 2 ^ 8 / 16 = y by omega,
    show (y % 16 * 16 + z / 4) % 2 ^ 8 % 16 * 4 = z by omega]

theorem encodeChars_oneByte (smallX : x < 64) (smallY : y < 64) (zeros : y % 16 = 0) :
    encodeChars [UInt8.ofNat (x * 4 + y / 16)] = [letter x, letter y, '=', '='] := by
  simp only [encodeChars, UInt8.toNat_ofNat']
  rw [show (x * 4 + y / 16) % 2 ^ 8 / 4 = x by omega,
    show (x * 4 + y / 16) % 2 ^ 8 % 4 * 16 = y by omega]

end Groups

theorem ofNat_eq {n : Nat} {a : UInt8} (value : n = a.toNat) : UInt8.ofNat n = a := by
  rw [value, UInt8.ofNat_toNat]

theorem decodeChars?_encodeChars (bytes : Bytes) :
    decodeChars? (encodeChars bytes) = some bytes := by
  fun_induction encodeChars bytes with
  | case1 => rfl
  | case2 a n =>
    have small : n < 256 := a.toNat_lt
    rw [decodeChars?_oneByte (by omega) (by omega) (by omega), ofNat_eq (a := a) (by omega)]
  | case3 a b n m =>
    have smallA : n < 256 := a.toNat_lt
    have smallB : m < 256 := b.toNat_lt
    rw [decodeChars?_twoBytes (by omega) (by omega) (by omega) (by omega),
      ofNat_eq (a := a) (by omega), ofNat_eq (a := b) (by omega)]
  | case4 a b c rest x y z ih =>
    have smallA : x < 256 := a.toNat_lt
    have smallB : y < 256 := b.toNat_lt
    have smallC : z < 256 := c.toNat_lt
    rw [decodeChars?_whole (by omega) (by omega) (by omega) (by omega), ih, Option.map_some,
      ofNat_eq (a := a) (by omega), ofNat_eq (a := b) (by omega), ofNat_eq (a := c) (by omega)]

/-- The last group of a text is what its bytes are written as. -/
theorem encodeChars_of_lastGroup? {a b c d : Char} {bytes : Bytes}
    (read : lastGroup? a b c d = some bytes) : encodeChars bytes = [a, b, c, d] := by
  simp only [lastGroup?, Option.bind_eq_bind, Option.bind_eq_some_iff] at read
  obtain ⟨x, readX, y, readY, third⟩ := read
  obtain ⟨smallX, rfl⟩ := letter_of_sextet? readX
  obtain ⟨smallY, rfl⟩ := letter_of_sextet? readY
  split at third
  case isTrue padded =>
    obtain ⟨rfl, rfl⟩ := padded
    split at third
    case isTrue zeros => cases third; exact encodeChars_oneByte smallX smallY zeros
    case isFalse => cases third
  obtain ⟨z, readZ, fourth⟩ := Option.bind_eq_some_iff.mp third
  obtain ⟨smallZ, rfl⟩ := letter_of_sextet? readZ
  split at fourth
  case isTrue padded =>
    subst padded
    split at fourth
    case isTrue zeros => cases fourth; exact encodeChars_twoBytes smallX smallY smallZ zeros
    case isFalse => cases fourth
  obtain ⟨w, readW, whole⟩ := Option.bind_eq_some_iff.mp fourth
  obtain ⟨smallW, rfl⟩ := letter_of_sextet? readW
  cases whole
  exact encodeChars_whole smallX smallY smallZ smallW []

/-- Each sequence of bytes has one text only. -/
theorem encodeChars_of_decodeChars? {cs : List Char} {bytes : Bytes}
    (read : decodeChars? cs = some bytes) : encodeChars bytes = cs := by
  fun_induction decodeChars? cs generalizing bytes with
  | case1 => cases read; rfl
  | case2 => exact encodeChars_of_lastGroup? read
  | case3 a b c d rest _ ih =>
    simp only [Option.bind_eq_bind, Option.bind_eq_some_iff] at read
    obtain ⟨x, readX, y, readY, z, readZ, w, readW, more, readRest, read⟩ := read
    obtain ⟨smallX, rfl⟩ := letter_of_sextet? readX
    obtain ⟨smallY, rfl⟩ := letter_of_sextet? readY
    obtain ⟨smallZ, rfl⟩ := letter_of_sextet? readZ
    obtain ⟨smallW, rfl⟩ := letter_of_sextet? readW
    cases read
    rw [encodeChars_whole smallX smallY smallZ smallW, ih readRest]
  | case4 => cases read

theorem decodeChars?_eq_some_iff {cs : List Char} {bytes : Bytes} :
    decodeChars? cs = some bytes ↔ cs = encodeChars bytes :=
  ⟨fun read => (encodeChars_of_decodeChars? read).symm,
    fun written => written ▸ decodeChars?_encodeChars bytes⟩

theorem length_encodeChars (bytes : Bytes) :
    (encodeChars bytes).length = (bytes.length + 2) / 3 * 4 := by
  fun_induction encodeChars bytes with
  | case1 => rfl
  | case2 => simp
  | case3 => simp
  | case4 a b c rest x y z ih =>
    simp only [List.length_cons, ih]
    omega

theorem isBlank_letter {n : Nat} (small : n < 64) : isBlank (letter n) = false := by
  have all : ∀ n : Fin 64, isBlank (letter n.val) = false := by decide
  exact all ⟨n, small⟩

theorem isBlank_encodeChars (bytes : Bytes) : ∀ c ∈ encodeChars bytes, isBlank c = false := by
  have padding : isBlank '=' = false := by decide
  fun_induction encodeChars bytes with
  | case1 => simp
  | case2 a n =>
    have small : n < 256 := a.toNat_lt
    simp only [List.forall_mem_cons]
    exact ⟨isBlank_letter (by omega), isBlank_letter (by omega), padding, padding, by simp⟩
  | case3 a b n m =>
    have smallA : n < 256 := a.toNat_lt
    have smallB : m < 256 := b.toNat_lt
    simp only [List.forall_mem_cons]
    exact ⟨isBlank_letter (by omega), isBlank_letter (by omega), isBlank_letter (by omega),
      padding, by simp⟩
  | case4 a b c rest x y z ih =>
    have smallA : x < 256 := a.toNat_lt
    have smallB : y < 256 := b.toNat_lt
    have smallC : z < 256 := c.toNat_lt
    simp only [List.forall_mem_cons]
    exact ⟨isBlank_letter (by omega), isBlank_letter (by omega), isBlank_letter (by omega),
      isBlank_letter (by omega), ih⟩

end OtaAgent.Text.Base64
