set_option autoImplicit false

namespace OtaAgent.Text

/-- The value of an ASCII digit below `base`, letters of either case counting from ten. -/
def digit? (base : Nat) (c : Char) : Option Nat :=
  let n := c.toNat
  let v :=
    if '0' ≤ c ∧ c ≤ '9' then n - 48
    else if 'a' ≤ c ∧ c ≤ 'z' then n - 87
    else if 'A' ≤ c ∧ c ≤ 'Z' then n - 55
    else base
  if v < base then some v else none

/-- The number that `digits` spell, most significant first. -/
def ofDigits (base : Nat) (digits : List Nat) : Nat :=
  digits.foldl (fun n d => n * base + d) 0

/-- The number of a text of one or more digits and nothing else. -/
def natural? (base : Nat) (cs : List Char) : Option Nat :=
  if cs.isEmpty then none else (cs.mapM (digit? base)).map (ofDigits base)

/-- As `natural?`, after at most one `+`. -/
def unsigned? (base : Nat) : List Char → Option Nat
  | '+' :: cs => natural? base cs
  | cs => natural? base cs

/-- As `natural?`, after at most one sign. -/
def signed? (base : Nat) : List Char → Option Int
  | '-' :: cs => (natural? base cs).map fun n => -(n : Int)
  | cs => (unsigned? base cs).map Int.ofNat

def hexDigit (n : Nat) : Char := Nat.digitChar n

/-- Decimal digits of `n`, at least `width` of them. -/
def padded (width n : Nat) : List Char :=
  let digits := Nat.toDigits 10 n
  List.replicate (width - digits.length) '0' ++ digits

end OtaAgent.Text
