set_option autoImplicit false

namespace OtaAgent.Text

/-- The first number whose nearest double is not finite, half a unit in the last place above the
largest double. -/
def doubleLimit : Nat := Nat.pow 2 1024 - Nat.pow 2 970

/-- The multiple of a power of two with 53 significant bits that is nearest to `n`; of two that are
equally near, the one whose last bit is zero. -/
def nearestDouble (n : Nat) : Nat :=
  let unit := Nat.pow 2 (n.log2 + 1 - 53)
  let below := n / unit
  let rest := 2 * (n % unit)
  if unit < rest ∨ rest = unit ∧ below % 2 = 1 then (below + 1) * unit else below * unit

/-- Numbers of 53 bits are doubles. -/
theorem nearestDouble_of_lt {n : Nat} (h : n < Nat.pow 2 53) : nearestDouble n = n := by
  have bits : n.log2 + 1 - 53 = 0 := by
    by_cases zero : n = 0
    · subst zero; decide
    · have := (Nat.log2_lt zero).mpr h; omega
  simp [nearestDouble, bits, Nat.mod_one]

/-- Whether the double nearest to `mantissa × 10 ^ scale` is finite. -/
def fitsDouble (mantissa : Nat) (scale : Int) : Bool :=
  if mantissa = 0 then true
  else
    let size : Int := (Nat.toDigits 10 mantissa).length + scale
    if size < 0 then true
    else if 310 < size then false
    else if 0 ≤ scale then mantissa * Nat.pow 10 scale.toNat < doubleLimit
    else mantissa < doubleLimit * Nat.pow 10 scale.natAbs

/-- Whether the double nearest to `mantissa`, multiplied by the one nearest to `10 ^ scale`, is
finite. Each of the two is rounded before they are multiplied, so the answer may differ from
`fitsDouble` where `mantissa × 10 ^ scale` lies close to the limit. With a negative scale it is
enough that the mantissa is finite, since a division makes it no larger. -/
def fitsDoubleProduct (mantissa : Nat) (scale : Int) : Bool :=
  mantissa == 0 ||
    scale ≤ 308 && nearestDouble mantissa * nearestDouble (Nat.pow 10 scale.toNat) < doubleLimit

end OtaAgent.Text
