import OtaAgent.Json.Basic
import OtaAgent.Text.Digits

set_option autoImplicit false

namespace OtaAgent.Json

def escapeChar (c : Char) : List Char :=
  if c = '"' then ['\\', '"']
  else if c = '\\' then ['\\', '\\']
  else if c = '\n' then ['\\', 'n']
  else if c = '\r' then ['\\', 'r']
  else if c = '\t' then ['\\', 't']
  else if c = '\x08' then ['\\', 'b']
  else if c = '\x0c' then ['\\', 'f']
  else if c.toNat < 32 then
    ['\\', 'u', '0', '0', Text.hexDigit (c.toNat / 16), Text.hexDigit (c.toNat % 16)]
  else [c]

def quote (s : String) : List Char := '"' :: s.toList.flatMap escapeChar ++ ['"']

/-- The digits of a number, with a point before the last `places` of them. -/
def numberText (mantissa : Int) (places : Nat) : List Char :=
  let sign := if mantissa < 0 then ['-'] else []
  if places = 0 then sign ++ Nat.toDigits 10 mantissa.natAbs
  else
    let digits := Text.padded (places + 1) mantissa.natAbs
    let whole := digits.length - places
    sign ++ digits.take whole ++ '.' :: digits.drop whole

mutual

def compactChars : Json → List Char
  | .null => ['n', 'u', 'l', 'l']
  | .bool true => ['t', 'r', 'u', 'e']
  | .bool false => ['f', 'a', 'l', 's', 'e']
  | .number mantissa places => numberText mantissa places
  | .string s => quote s
  | .array items => '[' :: compactItems items ++ [']']
  | .object members => '\x7b' :: compactMembers members ++ ['\x7d']

def compactItems : List Json → List Char
  | [] => []
  | [v] => compactChars v
  | v :: w :: items => compactChars v ++ ',' :: compactItems (w :: items)

def compactMembers : List (String × Json) → List Char
  | [] => []
  | [(key, v)] => quote key ++ ':' :: compactChars v
  | (key, v) :: m :: members =>
    quote key ++ ':' :: compactChars v ++ ',' :: compactMembers (m :: members)

end

def compact (v : Json) : String := String.ofList (compactChars v)

def newLine (indent : Nat) : List Char := '\n' :: List.replicate (2 * indent) ' '

mutual

def prettyChars (indent : Nat) : Json → List Char
  | .array [] => ['[', ']']
  | .array (v :: items) =>
    '[' :: newLine (indent + 1) ++ prettyItems (indent + 1) (v :: items) ++ newLine indent ++ [']']
  | .object [] => ['\x7b', '\x7d']
  | .object (m :: members) =>
    '\x7b' :: newLine (indent + 1) ++ prettyMembers (indent + 1) (m :: members) ++
      newLine indent ++ ['\x7d']
  | .null => ['n', 'u', 'l', 'l']
  | .bool true => ['t', 'r', 'u', 'e']
  | .bool false => ['f', 'a', 'l', 's', 'e']
  | .number mantissa places => numberText mantissa places
  | .string s => quote s

def prettyItems (indent : Nat) : List Json → List Char
  | [] => []
  | [v] => prettyChars indent v
  | v :: w :: items =>
    prettyChars indent v ++ ',' :: newLine indent ++ prettyItems indent (w :: items)

def prettyMembers (indent : Nat) : List (String × Json) → List Char
  | [] => []
  | [(key, v)] => quote key ++ ':' :: ' ' :: prettyChars indent v
  | (key, v) :: m :: members =>
    quote key ++ ':' :: ' ' :: prettyChars indent v ++ ',' :: newLine indent ++
      prettyMembers indent (m :: members)

end

def pretty (v : Json) : String := String.ofList (prettyChars 0 v)

end OtaAgent.Json
