import OtaAgent.Text.Utf8

set_option autoImplicit false

namespace OtaAgent.Text.Base64

def letter (n : Nat) : Char :=
  if n < 26 then Char.ofNat (65 + n)
  else if n < 52 then Char.ofNat (97 + (n - 26))
  else if n < 62 then Char.ofNat (48 + (n - 52))
  else if n = 62 then '+'
  else '/'

def sextet? (c : Char) : Option Nat :=
  if 'A' ≤ c ∧ c ≤ 'Z' then some (c.toNat - 65)
  else if 'a' ≤ c ∧ c ≤ 'z' then some (c.toNat - 71)
  else if '0' ≤ c ∧ c ≤ '9' then some (c.toNat + 4)
  else if c = '+' then some 62
  else if c = '/' then some 63
  else none

def encodeChars : Bytes → List Char
  | [] => []
  | [a] =>
    let a := a.toNat
    [letter (a / 4), letter (a % 4 * 16), '=', '=']
  | [a, b] =>
    let a := a.toNat
    let b := b.toNat
    [letter (a / 4), letter (a % 4 * 16 + b / 16), letter (b % 16 * 4), '=']
  | a :: b :: c :: rest =>
    let x := a.toNat
    let y := b.toNat
    let z := c.toNat
    letter (x / 4) :: letter (x % 4 * 16 + y / 16) :: letter (y % 16 * 4 + z / 64) ::
      letter (z % 64) :: encodeChars rest

/-- The bytes of the last group, which may be padded. -/
def lastGroup? (a b c d : Char) : Option Bytes := do
  let x ← sextet? a
  let y ← sextet? b
  if c = '=' ∧ d = '=' then
    if y % 16 = 0 then return [UInt8.ofNat (x * 4 + y / 16)] else none
  else
    let z ← sextet? c
    if d = '=' then
      if z % 4 = 0 then
        return [UInt8.ofNat (x * 4 + y / 16), UInt8.ofNat (y % 16 * 16 + z / 4)]
      else none
    else
      let w ← sextet? d
      return [UInt8.ofNat (x * 4 + y / 16), UInt8.ofNat (y % 16 * 16 + z / 4),
        UInt8.ofNat (z % 4 * 64 + w)]

def decodeChars? : List Char → Option Bytes
  | [] => some []
  | [a, b, c, d] => lastGroup? a b c d
  | a :: b :: c :: d :: rest => do
    let x ← sextet? a
    let y ← sextet? b
    let z ← sextet? c
    let w ← sextet? d
    let bytes ← decodeChars? rest
    return UInt8.ofNat (x * 4 + y / 16) :: UInt8.ofNat (y % 16 * 16 + z / 4) ::
      UInt8.ofNat (z % 4 * 64 + w) :: bytes
  | _ => none

def encode (bytes : Bytes) : String := String.ofList (encodeChars bytes)

def decode? (s : String) : Option Bytes := decodeChars? s.toList

end OtaAgent.Text.Base64
