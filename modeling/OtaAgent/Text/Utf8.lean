set_option autoImplicit false

namespace OtaAgent

/-- File contents and whatever travels over a wire. -/
abbrev Bytes := List UInt8

namespace Text.Utf8

def encodeChars (cs : List Char) : Bytes := cs.flatMap String.utf8EncodeChar

def encode (s : String) : Bytes := encodeChars s.toList

/-- The last six bits of a continuation byte. -/
def tail? (b : UInt8) : Option Nat :=
  if 0x80 ≤ b ∧ b < 0xC0 then some (b.toNat - 0x80) else none

/-- A scalar value of at least `least`, the smallest one its length is needed for. -/
def scalar? (least n : Nat) : Option Char :=
  if least ≤ n ∧ n.isValidChar then some (Char.ofNat n) else none

/-- The first character of `bytes` and what follows it. -/
def next? : Bytes → Option (Char × Bytes)
  | [] => none
  | a :: rest =>
    if a < 0x80 then some (Char.ofNat a.toNat, rest)
    else if 0xC0 ≤ a ∧ a < 0xE0 then
      match rest with
      | b :: rest => do
        let b ← tail? b
        let c ← scalar? 0x80 ((a.toNat - 0xC0) * 64 + b)
        return (c, rest)
      | [] => none
    else if 0xE0 ≤ a ∧ a < 0xF0 then
      match rest with
      | b :: c :: rest => do
        let b ← tail? b
        let c ← tail? c
        let d ← scalar? 0x800 (((a.toNat - 0xE0) * 64 + b) * 64 + c)
        return (d, rest)
      | _ => none
    else if 0xF0 ≤ a ∧ a < 0xF8 then
      match rest with
      | b :: c :: d :: rest => do
        let b ← tail? b
        let c ← tail? c
        let d ← tail? d
        let e ← scalar? 0x10000 ((((a.toNat - 0xF0) * 64 + b) * 64 + c) * 64 + d)
        return (e, rest)
      | _ => none
    else none

/-- Decodes at most `fuel` characters, in front of which stand those of `done`, last first. -/
def decodeLoop : Nat → List Char → Bytes → Option (List Char)
  | _, done, [] => some done.reverse
  | 0, _, _ :: _ => none
  | fuel + 1, done, bytes =>
    match next? bytes with
    | some (c, rest) => decodeLoop fuel (c :: done) rest
    | none => none

def decodeChars? (bytes : Bytes) : Option (List Char) := decodeLoop bytes.length [] bytes

def decode? (bytes : Bytes) : Option String := (decodeChars? bytes).map String.ofList

end Text.Utf8
end OtaAgent
