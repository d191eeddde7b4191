import OtaAgent.Text.Utf8

set_option autoImplicit false

namespace OtaAgent.Text.Utf8

theorem toNat_ofNat {n : Nat} (small : n < 256) : (UInt8.ofNat n).toNat = n :=
  UInt8.toNat_ofNat_of_lt' small

theorem tail?_ofNat {n : Nat} (small : n < 64) : tail? (UInt8.ofNat (n + 0x80)) = some n := by
  have value : (UInt8.ofNat (n + 0x80)).toNat = n + 0x80 := toNat_ofNat (by omega)
  simp only [tail?, UInt8.lt_iff_toNat_lt, UInt8.le_iff_toNat_le, value, UInt8.reduceToNat]
  rw [if_pos (by omega), Nat.add_sub_cancel]

theorem scalar?_toNat {least : Nat} (c : Char) (inside : least ≤ c.toNat) :
    scalar? least c.toNat = some c := by
  rw [scalar?, if_pos ⟨inside, c.valid⟩, Char.ofNat_toNat]

section Lengths

variable {n : Nat} (rest : Bytes)

theorem next?_one (one : n ≤ 0x7f) :
    next? (UInt8.ofNat n :: rest) = some (Char.ofNat n, rest) := by
  have first : (UInt8.ofNat n).toNat = n := toNat_ofNat (by omega)
  simp only [next?, UInt8.lt_iff_toNat_lt, first, UInt8.reduceToNat]
  rw [if_pos (by omega)]

theorem next?_two (two : n ≤ 0x7ff) :
    next? (UInt8.ofNat (n / 64 % 32 + 0xc0) :: UInt8.ofNat (n % 64 + 0x80) :: rest) =
      (scalar? 0x80 n).map (·, rest) := by
  have first : (UInt8.ofNat (n / 64 % 32 + 0xc0)).toNat = n / 64 % 32 + 0xc0 :=
    toNat_ofNat (by omega)
  have whole : (n / 64 % 32 + 0xc0 - 0xc0) * 64 + n % 64 = n := by omega
  simp only [next?, UInt8.lt_iff_toNat_lt, UInt8.le_iff_toNat_le, first, UInt8.reduceToNat]
  rw [if_neg (by omega), if_pos (by omega), tail?_ofNat (Nat.mod_lt _ (by decide))]
  simp only [Option.bind_eq_bind, Option.bind_some, whole]
  cases scalar? 0x80 n <;> rfl

theorem next?_three (three : n ≤ 0xffff) :
    next? (UInt8.ofNat (n / 4096 % 16 + 0xe0) :: UInt8.ofNat (n / 64 % 64 + 0x80) ::
      UInt8.ofNat (n % 64 + 0x80) :: rest) = (scalar? 0x800 n).map (·, rest) := by
  have first : (UInt8.ofNat (n / 4096 % 16 + 0xe0)).toNat = n / 4096 % 16 + 0xe0 :=
    toNat_ofNat (by omega)
  have whole : ((n / 4096 % 16 + 0xe0 - 0xe0) * 64 + n / 64 % 64) * 64 + n % 64 = n := by omega
  simp only [next?, UInt8.lt_iff_toNat_lt, UInt8.le_iff_toNat_le, first, UInt8.reduceToNat]
  rw [if_neg (by omega), if_neg (by omega), if_pos (by omega),
    tail?_ofNat (Nat.mod_lt _ (by decide)), tail?_ofNat (Nat.mod_lt _ (by decide))]
  simp only [Option.bind_eq_bind, Option.bind_some, whole]
  cases scalar? 0x800 n <;> rfl

theorem next?_four (four : n ≤ 0x1fffff) :
    next? (UInt8.ofNat (n / 262144 % 8 + 0xf0) :: UInt8.ofNat (n / 4096 % 64 + 0x80) ::
      UInt8.ofNat (n / 64 % 64 + 0x80) :: UInt8.ofNat (n % 64 + 0x80) :: rest) =
      (scalar? 0x10000 n).map (·, rest) := by
  have first : (UInt8.ofNat (n / 262144 % 8 + 0xf0)).toNat = n / 262144 % 8 + 0xf0 :=
    toNat_ofNat (by omega)
  have whole : (((n / 262144 % 8 + 0xf0 - 0xf0) * 64 + n / 4096 % 64) * 64 + n / 64 % 64) * 64 +
    n % 64 = n := by omega
  simp only [next?, UInt8.lt_iff_toNat_lt, UInt8.le_iff_toNat_le, first, UInt8.reduceToNat]
  rw [if_neg (by omega), if_neg (by omega), if_neg (by omega), if_pos (by omega),
    tail?_ofNat (Nat.mod_lt _ (by decide)), tail?_ofNat (Nat.mod_lt _ (by decide)),
    tail?_ofNat (Nat.mod_lt _ (by decide))]
  simp only [Option.bind_eq_bind, Option.bind_some, whole]
  cases scalar? 0x10000 n <;> rfl

end Lengths

theorem toNat_le (c : Char) : c.toNat ≤ 0x10ffff := by
  rcases c.valid with low | ⟨_, high⟩
  · exact Nat.le_of_lt (Nat.lt_trans low (by decide))
  · exact Nat.le_of_lt_succ high

theorem next?_utf8EncodeChar (c : Char) (rest : Bytes) :
    next? (String.utf8EncodeChar c ++ rest) = some (c, rest) := by
  have bound := toNat_le c
  unfold String.utf8EncodeChar
  simp only [Char.toNat_val]
  split
  · rename_i one
    rw [List.singleton_append, next?_one rest one, Char.ofNat_toNat]
  · split
    · rename_i notOne two
      refine (next?_two rest two).trans ?_
      rw [scalar?_toNat c (by omega)]
      rfl
    · split
      · rename_i notTwo three
        refine (next?_three rest three).trans ?_
        rw [scalar?_toNat c (by omega)]
        rfl
      · refine (next?_four rest (by omega)).trans ?_
        rw [scalar?_toNat c (by omega)]
        rfl

theorem decodeLoop_encodeChars (cs done : List Char) {fuel : Nat} (enough : cs.length ≤ fuel) :
    decodeLoop fuel done (encodeChars cs) = some (done.reverse ++ cs) := by
  induction cs generalizing fuel done with
  | nil => simp [encodeChars, decodeLoop]
  | cons c cs ih =>
    obtain ⟨fuel, rfl⟩ : ∃ fewer, fuel = fewer + 1 := ⟨fuel - 1, by simp at enough; omega⟩
    obtain ⟨b, bytes, shape⟩ : ∃ b bytes, encodeChars (c :: cs) = b :: bytes := by
      cases shape : encodeChars (c :: cs) with
      | nil => simp [encodeChars, String.utf8EncodeChar_ne_nil] at shape
      | cons b bytes => exact ⟨b, bytes, rfl⟩
    have read : next? (b :: bytes) = some (c, encodeChars cs) := by
      rw [← shape, encodeChars, List.flatMap_cons, ← encodeChars, next?_utf8EncodeChar]
    rw [shape, decodeLoop, read]
    · simp only
      rw [ih _ (by simpa using enough)]
      simp
    · simp

theorem length_le_encodeChars (cs : List Char) : cs.length ≤ (encodeChars cs).length := by
  induction cs with
  | nil => exact Nat.le_refl 0
  | cons c cs ih =>
    have full := List.length_pos_iff.mpr (String.utf8EncodeChar_ne_nil (c := c))
    rw [encodeChars, List.flatMap_cons, ← encodeChars, List.length_append, List.length_cons]
    omega

theorem decode?_encode (s : String) : decode? (encode s) = some s := by
  rw [decode?, decodeChars?, encode, decodeLoop_encodeChars _ _ (length_le_encodeChars s.toList)]
  simp

theorem encode_injective : Function.Injective encode := by
  intro s t same
  have read := decode?_encode s
  rw [same, decode?_encode] at read
  exact (Option.some.inj read).symm

/-- A byte below 128 is the character of that number, and no part of another one. -/
theorem toNat_of_mem_utf8EncodeChar {c : Char} {b : UInt8} (ascii : b.toNat < 0x80)
    (among : b ∈ String.utf8EncodeChar c) : c.toNat = b.toNat := by
  have bound := toNat_le c
  unfold String.utf8EncodeChar at among
  simp only [Char.toNat_val] at among
  generalize c.toNat = n at *
  split at among
  · obtain rfl := List.mem_singleton.mp among
    exact (toNat_ofNat (by omega)).symm
  · -- The bytes of a longer form are all 128 or more.
    have high {m : Nat} (same : b = UInt8.ofNat m) (size : m < 256) (least : 0x80 ≤ m) : False := by
      rw [same, toNat_ofNat size] at ascii
      omega
    split at among
    · simp only [List.mem_cons, List.not_mem_nil, or_false] at among
      rcases among with same | same <;> exact (high same (by omega) (by omega)).elim
    · split at among
      · simp only [List.mem_cons, List.not_mem_nil, or_false] at among
        rcases among with same | same | same <;> exact (high same (by omega) (by omega)).elim
      · simp only [List.mem_cons, List.not_mem_nil, or_false] at among
        rcases among with same | same | same | same <;>
          exact (high same (by omega) (by omega)).elim

theorem notMem_encodeChars {cs : List Char} {b : UInt8} (ascii : b.toNat < 0x80)
    (other : ∀ c ∈ cs, c.toNat ≠ b.toNat) : b ∉ encodeChars cs := by
  intro among
  obtain ⟨c, inside, among⟩ := List.mem_flatMap.mp among
  exact other c inside (toNat_of_mem_utf8EncodeChar ascii among)

theorem cons_ofNat_lt {i j : Nat} {bs bs' : Bytes} (low : i < 256) (high : j < 256) (le : i ≤ j)
    (rest : i = j → bs < bs') : UInt8.ofNat i :: bs < UInt8.ofNat j :: bs' := by
  rw [List.cons_lt_cons_iff, UInt8.lt_iff_toNat_lt, toNat_ofNat low, toNat_ofNat high]
  by_cases same : i = j
  · exact .inr ⟨congrArg UInt8.ofNat same, rest same⟩
  · exact .inl (by omega)

/-- The bytes of a smaller character come first, whatever follows them: a longer form begins with a
larger byte, and in forms of one length the first different byte decides. -/
theorem utf8EncodeChar_append_lt {c d : Char} (less : c < d) (rest rest' : Bytes) :
    String.utf8EncodeChar c ++ rest < String.utf8EncodeChar d ++ rest' := by
  have bound := toNat_le d
  have less : c.toNat < d.toNat := less
  unfold String.utf8EncodeChar
  simp only [Char.toNat_val]
  generalize c.toNat = m at *
  generalize d.toNat = n at *
  split
  · repeat' split
    all_goals exact cons_ofNat_lt (by omega) (by omega) (by omega) (by omega)
  · rw [if_neg (show ¬ n ≤ 0x7f by omega)]
    split
    · split
      · refine cons_ofNat_lt (by omega) (by omega) (by omega) fun _ => ?_
        exact cons_ofNat_lt (by omega) (by omega) (by omega) (by omega)
      · split
        all_goals exact cons_ofNat_lt (by omega) (by omega) (by omega) (by omega)
    · rw [if_neg (show ¬ n ≤ 0x7ff by omega)]
      split
      · split
        · refine cons_ofNat_lt (by omega) (by omega) (by omega) fun _ => ?_
          refine cons_ofNat_lt (by omega) (by omega) (by omega) fun _ => ?_
          exact cons_ofNat_lt (by omega) (by omega) (by omega) (by omega)
        · exact cons_ofNat_lt (by omega) (by omega) (by omega) (by omega)
      · rw [if_neg (show ¬ n ≤ 0xffff by omega)]
        refine cons_ofNat_lt (by omega) (by omega) (by omega) fun _ => ?_
        refine cons_ofNat_lt (by omega) (by omega) (by omega) fun _ => ?_
        refine cons_ofNat_lt (by omega) (by omega) (by omega) fun _ => ?_
        exact cons_ofNat_lt (by omega) (by omega) (by omega) (by omega)

theorem encodeChars_lt {cs ds : List Char} (less : cs < ds) : encodeChars cs < encodeChars ds := by
  induction less with
  | nil =>
    rename_i d ds
    obtain ⟨b, bs, shape⟩ := List.exists_cons_of_ne_nil (String.utf8EncodeChar_ne_nil (c := d))
    rw [encodeChars, encodeChars, List.flatMap_cons, shape]
    exact List.Lex.nil
  | rel less => exact utf8EncodeChar_append_lt less _ _
  | cons _ ih => exact List.append_left_lt ih

/-- The order of texts is the order of their bytes. -/
theorem encode_lt_encode {s t : String} (less : s < t) : encode s < encode t := encodeChars_lt less

end OtaAgent.Text.Utf8
