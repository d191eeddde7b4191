import OtaAgent.Json.Numeral
import OtaAgent.Text.Digits

set_option autoImplicit false

namespace OtaAgent.Json

inductive Token
  | beginObject
  | endObject
  | beginArray
  | endArray
  | colon
  | comma
  | null
  | bool (b : Bool)
  | number (n : Numeral)
  /-- `none` for a string that is no text. -/
  | string (s : Option String)
  deriving DecidableEq, Repr

def isSpace (c : Char) : Bool := c == ' ' || c == '\n' || c == '\t' || c == '\r'

def isDigit (c : Char) : Bool := '0' ≤ c && c ≤ '9'

def spanDigits (cs : List Char) : List Nat × List Char :=
  ((cs.takeWhile isDigit).map fun c => c.toNat - 48, cs.dropWhile isDigit)

/-- Digits after a point, at least one. -/
def lexFraction? : List Char → Option (Option (List Nat) × List Char)
  | '.' :: cs =>
    match spanDigits cs with
    | ([], _) => none
    | (digits, rest) => some (some digits, rest)
  | cs => some (none, cs)

/-- Digits after an `e`, at least one, and before them at most one sign. -/
def lexExponent? (cs : List Char) : Option (Option Int × List Char) :=
  let digitsOf := fun (sign : Int) cs =>
    match spanDigits cs with
    | ([], _) => none
    | (digits, rest) => some (some (sign * Text.ofDigits 10 digits), rest)
  let signed := fun
    | '-' :: cs => digitsOf (-1) cs
    | '+' :: cs => digitsOf 1 cs
    | cs => digitsOf 1 cs
  match cs with
  | 'e' :: cs => signed cs
  | 'E' :: cs => signed cs
  | cs => some (none, cs)

/-- A number without its sign: no digit follows a leading zero. -/
def lexUnsigned? (negative : Bool) (cs : List Char) : Option (Numeral × List Char) := do
  let (whole, rest) ← match cs with
    | '0' :: rest => some ([0], rest)
    | cs =>
      match spanDigits cs with
      | ([], _) => none
      | (digits, rest) => some (digits, rest)
  let (fraction, rest) ← lexFraction? rest
  let (exponent, rest) ← lexExponent? rest
  return ({ negative, whole, fraction, exponent }, rest)

def lexNumber? : List Char → Option (Numeral × List Char)
  | '-' :: cs => lexUnsigned? true cs
  | cs => lexUnsigned? false cs

def lexUnit? : List Char → Option (Nat × List Char)
  | a :: b :: c :: d :: rest => do
    let digits ← [a, b, c, d].mapM (Text.digit? 16)
    return (Text.ofDigits 16 digits, rest)
  | _ => none

/-- The second half of a surrogate pair. -/
def lexLowUnit? : List Char → Option (Nat × List Char)
  | '\\' :: 'u' :: cs =>
    match lexUnit? cs with
    | some (n, rest) => if 0xDC00 ≤ n ∧ n < 0xE000 then some (n, rest) else none
    | none => none
  | _ => none

/-- What follows a backslash and a `u`: a character, or `none` for half of a pair. -/
def lexCodePoint? (cs : List Char) : Option (Option Char × List Char) := do
  let (n, rest) ← lexUnit? cs
  if 0xD800 ≤ n ∧ n < 0xDC00 then
    match lexLowUnit? rest with
    | some (low, rest) =>
      return (some (Char.ofNat (0x10000 + (n - 0xD800) * 1024 + (low - 0xDC00))), rest)
    | none => return (none, rest)
  else if 0xDC00 ≤ n ∧ n < 0xE000 then return (none, rest)
  else return (some (Char.ofNat n), rest)

def simpleEscape? : Char → Option Char
  | '"' => some '"'
  | '\\' => some '\\'
  | '/' => some '/'
  | 'b' => some '\x08'
  | 'f' => some '\x0c'
  | 'n' => some '\n'
  | 'r' => some '\r'
  | 't' => some '\t'
  | _ => none

/-- The rest of a string after the characters of `done`, last first; `text` says whether they are
a text. -/
def lexString? : Nat → Bool → List Char → List Char → Option (Option String × List Char)
  | 0, _, _, _ => none
  | fuel + 1, text, done, cs =>
    match cs with
    | [] => none
    | '"' :: rest => some (if text then some (String.ofList done.reverse) else none, rest)
    | '\\' :: 'u' :: rest =>
      match lexCodePoint? rest with
      | some (some c, rest) => lexString? fuel text (c :: done) rest
      | some (none, rest) => lexString? fuel false done rest
      | none => none
    | '\\' :: e :: rest =>
      match simpleEscape? e with
      | some c => lexString? fuel text (c :: done) rest
      | none => none
    | c :: rest => if c.toNat < 32 ∨ c = '\\' then none else lexString? fuel text (c :: done) rest

/-- The token that `cs` starts with, and the rest. -/
def lexToken? : List Char → Option (Token × List Char)
  | '\x7b' :: rest => some (.beginObject, rest)
  | '\x7d' :: rest => some (.endObject, rest)
  | '[' :: rest => some (.beginArray, rest)
  | ']' :: rest => some (.endArray, rest)
  | ':' :: rest => some (.colon, rest)
  | ',' :: rest => some (.comma, rest)
  | 'n' :: 'u' :: 'l' :: 'l' :: rest => some (.null, rest)
  | 't' :: 'r' :: 'u' :: 'e' :: rest => some (.bool true, rest)
  | 'f' :: 'a' :: 'l' :: 's' :: 'e' :: rest => some (.bool false, rest)
  | '"' :: rest =>
    (lexString? (rest.length + 1) true [] rest).map fun (s, rest) => (.string s, rest)
  | cs => (lexNumber? cs).map fun (n, rest) => (.number n, rest)

/-- The tokens of `cs` after those of `done`, last first. -/
def lexLoop? : Nat → List Token → List Char → Option (List Token)
  | _, done, [] => some done.reverse
  | 0, _, _ :: _ => none
  | fuel + 1, done, c :: cs =>
    if isSpace c then lexLoop? fuel done cs
    else match lexToken? (c :: cs) with
      | some (token, rest) => lexLoop? fuel (token :: done) rest
      | none => none

def lex? (cs : List Char) : Option (List Token) := lexLoop? cs.length [] cs

end OtaAgent.Json
