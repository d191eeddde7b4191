import OtaAgent.Digest.Sha256
import OtaAgent.Text.Base64
import OtaAgent.Text.Blank
import OtaAgent.Text.Digits

set_option autoImplicit false

namespace OtaAgent

structure Digest where
  bytes : Bytes
  size : bytes.length = 32
  deriving DecidableEq

namespace Digest

theorem Sha256.length_bigEndian (width n : Nat) : (Sha256.bigEndian width n).length = width := by
  induction width generalizing n with
  | zero => rfl
  | succ width ih => simp [Sha256.bigEndian, ih]

theorem Sha256.length_bytes (s : Sha256.Words) : s.bytes.length = 32 := by
  simp [Sha256.Words.bytes, Sha256.length_bigEndian]

def ofContent (content : Bytes) : Digest := ⟨Sha256.hash content, Sha256.length_bytes _⟩

def ofBytes? (bytes : Bytes) : Option Digest :=
  if h : bytes.length = 32 then some ⟨bytes, h⟩ else none

/-- The form in which digests are sent and stored. -/
def text (d : Digest) : String := Text.Base64.encode d.bytes

def hexChars (d : Digest) : List Char :=
  d.bytes.flatMap fun b => [Text.hexDigit (b.toNat / 16), Text.hexDigit (b.toNat % 16)]

def hex (d : Digest) : String := String.ofList d.hexChars

/-- Each two characters read as one byte in base 16, where a `+` may stand before the digit. -/
def pairs? : List Char → Option Bytes
  | [] => some []
  | a :: b :: rest => do
    let n ← Text.unsigned? 16 [a, b]
    return UInt8.ofNat n :: (← pairs? rest)
  | _ => none

def ofHex? (cs : List Char) : Option Digest :=
  if cs.length = 64 ∧ cs.all (fun c => c.toNat < 128) then (pairs? cs).bind ofBytes? else none

/-- The digest written in `s`, blanks around it aside. -/
def parse? (s : String) : Option Digest :=
  let cs := Text.trimChars s.toList
  match (Text.Base64.decodeChars? cs).bind ofBytes? with
  | some d => some d
  | none => ofHex? cs

end Digest
end OtaAgent
