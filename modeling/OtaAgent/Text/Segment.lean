import OtaAgent.Text.Digits
import OtaAgent.Text.Utf8

set_option autoImplicit false

namespace OtaAgent.Text.Segment

/-- The characters that stand for themselves. -/
def isPlain (c : Char) : Bool :=
  c.isAlphanum || c == '-' || c == '_' || c == '.' || c == '~'

def escapeByte (b : UInt8) : List Char :=
  ['%', (hexDigit (b.toNat / 16)).toUpper, (hexDigit (b.toNat % 16)).toUpper]

def encodeChar (c : Char) : List Char :=
  if isPlain c then [c] else (String.utf8EncodeChar c).flatMap escapeByte

def encode (s : String) : String := String.ofList (s.toList.flatMap encodeChar)

/-- The bytes that a segment stands for; a `%` without two digits after it is refused. -/
def decode? : List Char → Option Bytes
  | [] => some []
  | '%' :: a :: b :: rest => do
    let a ← digit? 16 a
    let b ← digit? 16 b
    return UInt8.ofNat (a * 16 + b) :: (← decode? rest)
  | c :: rest =>
    if c = '%' then none else (decode? rest).map (String.utf8EncodeChar c ++ ·)

end OtaAgent.Text.Segment
