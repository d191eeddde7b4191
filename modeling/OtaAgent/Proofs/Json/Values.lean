import Mathlib.Algebra.Group.Int.Defs
import Mathlib.Algebra.Group.Nat.Defs
import OtaAgent.Proofs.Json.Building
import OtaAgent.Proofs.Table
import OtaAgent.Proofs.Text.Digits

set_option autoImplicit false

namespace OtaAgent

theorem Text.nearestDouble_le {n : Nat} (small : n < 2 ^ 64) : nearestDouble n ≤ n + 2 ^ 11 := by
  have bits : n.log2 ≤ 63 := by
    by_cases zero : n = 0
    · subst zero
      decide
    · have := (Nat.log2_lt zero).mpr small
      omega
  have unit : Nat.pow 2 (n.log2 + 1 - 53) ≤ 2 ^ 11 := Nat.pow_le_pow_right (by decide) (by omega)
  unfold nearestDouble
  generalize Nat.pow 2 (n.log2 + 1 - 53) = u at unit
  have below : n / u * u ≤ n := Nat.div_mul_le_self n u
  dsimp only
  split
  · rw [Nat.add_mul, Nat.one_mul]
    omega
  · omega

theorem Text.fitsDoubleProduct_of_lt {n : Nat} (small : n < 2 ^ 64) :
    fitsDoubleProduct n 0 = true := by
  have one : nearestDouble 1 = 1 := nearestDouble_of_lt (by decide)
  have near := nearestDouble_le small
  have room : 2 ^ 64 + 2 ^ 11 ≤ doubleLimit := by decide +kernel
  have fits : nearestDouble n < doubleLimit := by omega
  simp [fitsDoubleProduct, one, fits]

namespace Json

theorem le_foldl_digits (digits : List Nat) (n : Nat) :
    n ≤ digits.foldl (fun n d => n * 10 + d) n := by
  induction digits generalizing n with
  | nil => exact Nat.le_refl n
  | cons d digits ih => exact Nat.le_trans (by omega) (ih (n * 10 + d))

/-- Digits of a number below `2 ^ 64` all find room in a word. -/
theorem takeWord_of_lt {digits : List Nat} {n : Nat}
    (small : digits.foldl (fun n d => n * 10 + d) n < 2 ^ 64) :
    takeWord n digits = (digits.foldl (fun n d => n * 10 + d) n, []) := by
  induction digits generalizing n with
  | nil => rfl
  | cons d digits ih =>
    have room : n * 10 + d < Nat.pow 2 64 := Nat.lt_of_le_of_lt (le_foldl_digits digits _) small
    rw [takeWord, if_pos room, List.foldl_cons, ih small]

/-- The digits that a whole number is printed with are those of the number. -/
theorem ofDigits_whole (n : Int) : Text.ofDigits 10 (numeral n 0).whole = n.natAbs := by
  have whole : (numeral n 0).whole = (Nat.toDigits 10 n.natAbs).map fun c => c.toNat - 48 := by
    simp [numeral, wholeDigits, printedDigits, digitValues]
  rw [whole, Text.ofDigits_toDigits]

/-- The number of 64 bits that is written without a point is read as itself. -/
theorem toJson?_numeral {n : Int} (low : -2 ^ 63 ≤ n) (high : n < 2 ^ 64) :
    (numeral n 0).toJson? = some (.ofInt n) := by
  have small : n.natAbs < 2 ^ 64 := by omega
  have digits := ofDigits_whole n
  have decimals : (numeral n 0).decimals = [] := rfl
  have exponent : (numeral n 0).exponent = none := rfl
  have mantissa : (numeral n 0).mantissa = n.natAbs := by
    rw [Numeral.mantissa, decimals, List.append_nil, digits]
  have scale : (numeral n 0).scale = 0 := rfl
  have leading : (numeral n 0).leading = (n.natAbs, 0) := by
    rw [Numeral.leading, decimals, takeWord_of_lt (by rwa [← digits] at small)]
    rw [Text.ofDigits] at digits
    simp [digits, takeWord, exponent]
  have inRange : (numeral n 0).inRange = true := by
    rw [Numeral.inRange, leading]
    exact Text.fitsDoubleProduct_of_lt small
  rw [Numeral.toJson?, if_pos inRange, mantissa, scale]
  by_cases zero : n = 0
  · subst zero
    rfl
  · have signed : (if (numeral n 0).negative then -(n.natAbs : Int) else n.natAbs) = n := by
      simp only [numeral, decide_eq_true_eq]
      split <;> omega
    have full : n.natAbs ≠ 0 := by omega
    simp only [signed, full, Int.le_refl, if_true, if_false]
    simp [ofInt]

/-- A value with whole numbers of 64 bits and no more than `depth` arrays and objects in one
another, whose objects have their members in the order of their names. -/
inductive Bounded : Nat → Json → Prop
  | null (depth : Nat) : Bounded depth .null
  | bool (depth : Nat) (b : Bool) : Bounded depth (.bool b)
  | number (depth : Nat) (n : Int) (low : -2 ^ 63 ≤ n) (high : n < 2 ^ 64) :
      Bounded depth (.ofInt n)
  | string (depth : Nat) (s : String) : Bounded depth (.string s)
  | array (depth : Nat) (items : List Json) (each : ∀ item ∈ items, Bounded depth item) :
      Bounded (depth + 1) (.array items)
  | object (depth : Nat) (members : List (String × Json)) (sorted : Table.Sorted members)
      (each : ∀ m ∈ members, Bounded depth m.2) : Bounded (depth + 1) (.object members)

theorem itemsToJson?_itemDocs {depth : Nat} {items : List Json}
    (each : ∀ item ∈ items, item.toDoc.toJsonAt? depth = some item) :
    itemsToJson? depth (itemDocs items) = some items := by
  induction items with
  | nil => rfl
  | cons item items ih =>
    rw [List.forall_mem_cons] at each
    simp [itemDocs, itemsToJson?, each.1, ih each.2]

theorem membersToJson?_memberDocs {depth : Nat} {members : List (String × Json)}
    (each : ∀ m ∈ members, m.2.toDoc.toJsonAt? depth = some m.2) :
    membersToJson? depth (memberDocs members) = some members := by
  induction members with
  | nil => rfl
  | cons m members ih =>
    rw [List.forall_mem_cons] at each
    simp [memberDocs, membersToJson?, each.1, ih each.2]

theorem Bounded.toJsonAt?_toDoc {depth : Nat} {v : Json} (bounded : v.Bounded depth) :
    v.toDoc.toJsonAt? depth = some v := by
  induction bounded with
  | null | bool | string => rfl
  | number depth n low high => exact toJson?_numeral low high
  | array depth items each ih =>
    rw [toDoc, Doc.toJsonAt?, itemsToJson?_itemDocs ih]
    rfl
  | object depth members sorted each ih =>
    rw [toDoc, Doc.toJsonAt?, membersToJson?_memberDocs ih, Option.map_some, ofMembers,
      Table.ofList_eq_self sorted]

/-- A value is read back from the line that it is printed on. -/
theorem Bounded.parse?_compact {v : Json} (bounded : v.Bounded maxDepth) :
    parse? v.compact = some v := by
  rw [parse?, Doc.parse?_compact, Option.bind_some, Doc.toJson?, bounded.toJsonAt?_toDoc]

section Printable

def Printable (cs : List Char) : Prop := ∀ c ∈ cs, 32 ≤ c.toNat

variable {c : Char} {cs ds : List Char}

instance (cs : List Char) : Decidable (Printable cs) :=
  decidable_of_iff (cs.all fun c => 32 ≤ c.toNat) (by simp [Printable])

theorem Printable.cons (first : 32 ≤ c.toNat) (rest : Printable cs) : Printable (c :: cs) :=
  List.forall_mem_cons.mpr ⟨first, rest⟩

theorem Printable.append (front : Printable cs) (back : Printable ds) : Printable (cs ++ ds) :=
  List.forall_mem_append.mpr ⟨front, back⟩

theorem printable_escapeChar (c : Char) : Printable (escapeChar c) := by
  have hex : ∀ n : Fin 16, 32 ≤ (Text.hexDigit n.val).toNat := by decide
  unfold escapeChar
  repeat' split
  any_goals decide
  · rename_i control
    have high := hex ⟨c.toNat / 16, by omega⟩
    have low := hex ⟨c.toNat % 16, by omega⟩
    exact .append (by decide : Printable ['\\', 'u', '0', '0']) (.cons high (.cons low nofun))
  · rename_i printable
    exact .cons (Nat.le_of_not_lt printable) nofun

theorem printable_quote (s : String) : Printable (quote s) := by
  have inside : Printable (s.toList.flatMap escapeChar) := by
    intro c among
    obtain ⟨d, -, among⟩ := List.mem_flatMap.mp among
    exact printable_escapeChar d c among
  exact .cons (by decide) (inside.append (.cons (by decide) nofun))

theorem printable_printedDigits (n places : Nat) : Printable (printedDigits n places) := by
  intro c among
  have digit := isDigit_of_mem_printedDigits among
  simp only [isDigit, Bool.and_eq_true, decide_eq_true_eq] at digit
  have low : 48 ≤ c.toNat := digit.1
  omega

theorem printable_numberText (mantissa : Int) (places : Nat) :
    Printable (numberText mantissa places) := by
  have digits := printable_printedDigits mantissa.natAbs places
  rw [numberText_eq]
  refine .append ?_ (.append ?_ ?_)
  · split <;> decide
  · exact fun c among => digits c (List.mem_of_mem_take among)
  · split
    · exact nofun
    · exact .cons (by decide) fun c among => digits c (List.mem_of_mem_drop among)

mutual

/-- What is printed on one line is one line. -/
theorem printable_compactChars (v : Json) : Printable (compactChars v) := by
  match v with
  | .null | .bool true | .bool false => decide
  | .number mantissa places => exact printable_numberText mantissa places
  | .string s => exact printable_quote s
  | .array items =>
    exact .cons (by decide) ((printable_compactItems items).append (.cons (by decide) nofun))
  | .object members =>
    exact .cons (by decide) ((printable_compactMembers members).append (.cons (by decide) nofun))

theorem printable_compactItems (items : List Json) : Printable (compactItems items) := by
  match items with
  | [] => exact nofun
  | [v] => exact printable_compactChars v
  | v :: w :: items =>
    exact (printable_compactChars v).append
      (.cons (by decide) (printable_compactItems (w :: items)))

theorem printable_compactMembers (members : List (String × Json)) :
    Printable (compactMembers members) := by
  match members with
  | [] => exact nofun
  | [(key, v)] =>
    exact (printable_quote key).append (.cons (by decide) (printable_compactChars v))
  | (key, v) :: m :: members =>
    have first := (printable_quote key).append
      (.cons (by decide : 32 ≤ ':'.toNat) (printable_compactChars v))
    exact first.append (.cons (by decide) (printable_compactMembers (m :: members)))

end

end Printable

end Json
end OtaAgent
