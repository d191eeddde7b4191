import OtaAgent.Json.Basic
import OtaAgent.Text.Decimal
import OtaAgent.Text.Digits

set_option autoImplicit false

namespace OtaAgent.Json

structure Numeral where
  negative : Bool
  whole : List Nat
  /-- The digits after the point, if there is one. -/
  fraction : Option (List Nat)
  exponent : Option Int
  deriving DecidableEq, Repr

/-- The number that `n` continues with the digits, as far as it stays below `2 ^ 64`, and the digits
that are left over. -/
def takeWord (n : Nat) : List Nat → Nat × List Nat
  | [] => (n, [])
  | d :: digits =>
    if n * 10 + d < Nat.pow 2 64 then takeWord (n * 10 + d) digits else (n, d :: digits)

namespace Numeral

def decimals (n : Numeral) : List Nat := n.fraction.getD []

/-- All digits of `n` as one number. -/
def mantissa (n : Numeral) : Nat := Text.ofDigits 10 (n.whole ++ n.decimals)

/-- The power of ten that the mantissa is multiplied by. -/
def scale (n : Numeral) : Int := n.exponent.getD 0 - n.decimals.length

/-- The digits of `n` that a word of 64 bits has room for, as one number, and the power of ten that
it is multiplied by. Digits before the point that find no room still count as places; those after
the point do not. -/
def leading (n : Numeral) : Nat × Int :=
  let (word, dropped) := takeWord 0 n.whole
  let (word, ignored) := takeWord word n.decimals
  (word, dropped.length - (n.decimals.length - ignored.length : Nat) + n.exponent.getD 0)

/-- Whether the leading digits, rounded to a double and multiplied by their power of ten, give a
finite number. -/
def inRange (n : Numeral) : Bool := Text.fitsDoubleProduct n.leading.1 n.leading.2

def toJson? (n : Numeral) : Option Json :=
  if n.inRange then
    let signed : Int := if n.negative then -n.mantissa else n.mantissa
    if n.mantissa = 0 then some (.number 0 0)
    else if 0 ≤ n.scale then some (.number (signed * (Nat.pow 10 n.scale.toNat : Nat)) 0)
    else some (.number signed n.scale.natAbs)
  else none

end Numeral
end OtaAgent.Json
