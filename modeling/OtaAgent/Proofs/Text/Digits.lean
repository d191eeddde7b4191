import OtaAgent.Text.Digits

set_option autoImplicit false

namespace OtaAgent.Text

theorem ofDigits_eq_ofDigitChars (cs : List Char) (n : Nat) :
    (cs.map fun c => c.toNat - 48).foldl (fun n d => n * 10 + d) n = Nat.ofDigitChars 10 cs n := by
  induction cs generalizing n with
  | nil => rfl
  | cons c cs ih =>
    rw [List.map_cons, List.foldl_cons, ih, Nat.ofDigitChars_cons, Nat.mul_comm n]
    rfl

theorem ofDigits_toDigits (n : Nat) :
    ofDigits 10 ((Nat.toDigits 10 n).map fun c => c.toNat - 48) = n :=
  (ofDigits_eq_ofDigitChars _ 0).trans Nat.ofDigitChars_ten_toDigits

theorem digit?_of_isDigit {c : Char} (digit : c.isDigit = true) :
    digit? 10 c = some (c.toNat - 48) := by
  have among : '0' ≤ c ∧ c ≤ '9' := by simpa [Char.isDigit, Char.le_def] using digit
  have small : c.toNat ≤ 57 := among.2
  simp only [digit?, if_pos among]
  rw [if_pos (by omega)]

theorem mapM_digit? {cs : List Char} (digits : ∀ c ∈ cs, c.isDigit = true) :
    cs.mapM (digit? 10) = some (cs.map fun c => c.toNat - 48) := by
  induction cs with
  | nil => rfl
  | cons c cs ih =>
    rw [List.forall_mem_cons] at digits
    simp [digit?_of_isDigit digits.1, ih digits.2]

theorem natural?_toDigits (n : Nat) : natural? 10 (Nat.toDigits 10 n) = some n := by
  have digits (c : Char) (among : c ∈ Nat.toDigits 10 n) : c.isDigit = true :=
    Nat.isDigit_of_mem_toDigits (by decide) (Nat.le_refl 10) among
  have full : (Nat.toDigits 10 n).isEmpty = false := by simp
  rw [natural?, full, mapM_digit? digits, Option.map_some, ofDigits_toDigits]
  rfl

/-- The digits of a number begin with none of the signs. -/
theorem unsigned?_toDigits (n : Nat) : unsigned? 10 (Nat.toDigits 10 n) = some n := by
  rw [unsigned?, natural?_toDigits]
  intro cs same
  have plus : '+' ∈ Nat.toDigits 10 n := same ▸ List.mem_cons_self
  have digit := Nat.isDigit_of_mem_toDigits (by decide) (Nat.le_refl 10) plus
  revert digit
  decide

end OtaAgent.Text
