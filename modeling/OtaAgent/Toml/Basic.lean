import OtaAgent.Text.Decimal
import OtaAgent.Text.Digits

set_option autoImplicit false

namespace OtaAgent

inductive Toml
  | string (s : String)
  | integer (n : Int)
  | float
  | boolean (b : Bool)
  | datetime
  | array (items : List Toml)
  | table (members : List (String × Toml))
  deriving Repr, Inhabited

namespace Toml

/-- What precedes the first `c` of `cs`, and what follows it. -/
def cutAt? (p : Char → Bool) (cs : List Char) : Option (List Char × List Char) :=
  match cs.dropWhile (!p ·) with
  | _ :: rest => some (cs.takeWhile (!p ·), rest)
  | [] => none

/-- Digits that single underscores may stand between. -/
def grouped? (isDigit : Char → Bool) : List Char → Option (List Char)
  | [] => none
  | [c] => if isDigit c then some [c] else none
  | c :: '_' :: rest => if isDigit c then (grouped? isDigit rest).map (c :: ·) else none
  | c :: rest => if isDigit c then (grouped? isDigit rest).map (c :: ·) else none

def isDecimal (c : Char) : Bool := '0' ≤ c && c ≤ '9'

/-- Digits without a leading zero. -/
def wholeDigits? (cs : List Char) : Option (List Char) := do
  let digits ← grouped? isDecimal cs
  if 1 < digits.length ∧ digits.head? = some '0' then none else return digits

def dropSign : List Char → Bool × List Char
  | '+' :: cs => (false, cs)
  | '-' :: cs => (true, cs)
  | cs => (false, cs)

def inRange? (n : Int) : Option Toml :=
  if -9223372036854775808 ≤ n ∧ n ≤ 9223372036854775807 then some (.integer n) else none

def ofRadix? (base : Nat) (cs : List Char) : Option Toml := do
  let digits ← grouped? (fun c => (Text.digit? base c).isSome) cs
  inRange? (← Text.natural? base digits)

def integer? (cs : List Char) : Option Toml :=
  match cs with
  | '0' :: 'x' :: rest => ofRadix? 16 rest
  | '0' :: 'o' :: rest => ofRadix? 8 rest
  | '0' :: 'b' :: rest => ofRadix? 2 rest
  | _ => do
    let (negative, digits) := dropSign cs
    let n ← Text.natural? 10 (← wholeDigits? digits)
    inRange? (if negative then -(n : Int) else n)

/-- A number with a fraction or an exponent. One that is too large is refused, unless it is
negative. -/
def float? (cs : List Char) : Option Toml := do
  let (negative, body) := dropSign cs
  if body = ['i', 'n', 'f'] ∨ body = ['n', 'a', 'n'] then return .float
  let (number, exponent) ← match cutAt? (fun c => c == 'e' || c == 'E') body with
    | some (number, exponent) => do
      let (below, digits) := dropSign exponent
      let n ← Text.natural? 10 (← grouped? isDecimal digits)
      pure (number, some (if below then -(n : Int) else n))
    | none => pure (body, none)
  let (whole, fraction) ← match cutAt? (· == '.') number with
    | some (whole, fraction) => pure (whole, ← grouped? isDecimal fraction)
    | none => if exponent.isSome then pure (number, []) else none
  let digits := (← wholeDigits? whole) ++ fraction
  let mantissa ← Text.natural? 10 digits
  if negative ∨ Text.fitsDouble mantissa (exponent.getD 0 - fraction.length) then return .float
  else none

/-- A number of exactly `width` digits, from `least` to `most`. -/
def field? (width least most : Nat) (cs : List Char) : Option Nat := do
  let n ← Text.natural? 10 cs
  if cs.length = width ∧ least ≤ n ∧ n ≤ most then return n else none

def daysOfMonth (year month : Nat) : Nat :=
  if month = 2 then if year % 4 = 0 ∧ (year % 100 ≠ 0 ∨ year % 400 = 0) then 29 else 28
  else if month = 4 ∨ month = 6 ∨ month = 9 ∨ month = 11 then 30
  else 31

def isDate (cs : List Char) : Bool :=
  (do
    let (year, rest) ← cutAt? (· == '-') cs
    let (month, day) ← cutAt? (· == '-') rest
    let year ← field? 4 0 9999 year
    let month ← field? 2 1 12 month
    field? 2 1 (daysOfMonth year month) day).isSome

/-- Hour, minute and second, and perhaps a fraction of it. -/
def isTime (cs : List Char) : Bool :=
  (do
    let (hour, rest) ← cutAt? (· == ':') cs
    let (minute, second) ← cutAt? (· == ':') rest
    let _ ← field? 2 0 23 hour
    let _ ← field? 2 0 59 minute
    match cutAt? (· == '.') second with
    | some (second, fraction) => do
      let _ ← Text.natural? 10 fraction
      field? 2 0 60 second
    | none => field? 2 0 60 second).isSome

/-- A time, perhaps with its distance from UTC. -/
def isOffsetTime (cs : List Char) : Bool :=
  match cs.getLast? with
  | some 'Z' => isTime cs.dropLast
  | some 'z' => isTime cs.dropLast
  | _ =>
    match cutAt? (fun c => c == '+' || c == '-') cs with
    | some (time, offset) =>
      isTime time && (do
        let (hour, minute) ← cutAt? (· == ':') offset
        let _ ← field? 2 0 23 hour
        field? 2 0 59 minute).isSome
    | none => isTime cs

def isDatetime (cs : List Char) : Bool :=
  isTime cs || isDate cs ||
    (isDate (cs.take 10) &&
      (match cs.drop 10 with
        | 'T' :: time => isOffsetTime time
        | 't' :: time => isOffsetTime time
        | ' ' :: time => isOffsetTime time
        | _ => false))

def isScalarChar (c : Char) : Bool :=
  c.isAlphanum || c == '+' || c == '-' || c == '_' || c == '.' || c == ':'

/-- The characters of the scalar that `cs` starts with, and the rest. A date goes on after one
space if a time follows. -/
def spanScalar (cs : List Char) : List Char × List Char :=
  let word := cs.takeWhile isScalarChar
  match isDate word, cs.dropWhile isScalarChar with
  | true, ' ' :: c :: rest =>
    if isDecimal c then
      (word ++ ' ' :: (c :: rest).takeWhile isScalarChar, (c :: rest).dropWhile isScalarChar)
    else (word, ' ' :: c :: rest)
  | _, rest => (word, rest)

def ofScalar? (word : List Char) : Option Toml :=
  if word = ['t', 'r', 'u', 'e'] then some (.boolean true)
  else if word = ['f', 'a', 'l', 's', 'e'] then some (.boolean false)
  else if isDatetime word then some .datetime
  else (integer? word).or (float? word)

end Toml
end OtaAgent
