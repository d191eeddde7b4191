import OtaAgent.Toml.Basic

set_option autoImplicit false

namespace OtaAgent.Toml

/-- Characters that may stand in a string as they are; line ends have rules of their own. -/
def isPlain (c : Char) : Bool := c == '\t' || (32 ≤ c.toNat && c.toNat != 127)

/-- Behind a line end, if `cs` starts with one. -/
def dropLineEnd? : List Char → Option (List Char)
  | '\n' :: rest => some rest
  | '\r' :: '\n' :: rest => some rest
  | _ => none

def isIndent (c : Char) : Bool := c == ' ' || c == '\t'

/-- Behind all spaces, tabs and line ends. -/
def dropBlanks : List Char → List Char
  | ' ' :: rest => dropBlanks rest
  | '\t' :: rest => dropBlanks rest
  | '\n' :: rest => dropBlanks rest
  | '\r' :: '\n' :: rest => dropBlanks rest
  | cs => cs

/-- The character that `cs` escapes, after the backslash. -/
def escape? : List Char → Option (Char × List Char)
  | 'b' :: rest => some ('\x08', rest)
  | 'f' :: rest => some ('\x0c', rest)
  | 'n' :: rest => some ('\n', rest)
  | 'r' :: rest => some ('\r', rest)
  | 't' :: rest => some ('\t', rest)
  | '"' :: rest => some ('"', rest)
  | '\\' :: rest => some ('\\', rest)
  | 'u' :: rest => scalar? 4 rest
  | 'U' :: rest => scalar? 8 rest
  | _ => none
where
  scalar? (width : Nat) (cs : List Char) : Option (Char × List Char) := do
    let digits := cs.take width
    let n ← Text.ofDigits 16 <$> digits.mapM (Text.digit? 16)
    if digits.length = width ∧ n.isValidChar then return (Char.ofNat n, cs.drop width) else none

def line? (mark : Char) : Nat → List Char → List Char → Option (List Char × List Char)
  | 0, _, _ => none
  | fuel + 1, done, cs =>
    match cs with
    | [] => none
    | c :: rest =>
      if c = mark then some (done.reverse, rest)
      else if c = '\\' ∧ mark = '"' then
        match escape? rest with
        | some (c, rest) => line? mark fuel (c :: done) rest
        | none => none
      else if isPlain c then line? mark fuel (c :: done) rest
      else none

/-- The rest of a string over several lines. It ends with three marks, before which one or two more
may stand. -/
def lines? (mark : Char) : Nat → List Char → List Char → Option (List Char × List Char)
  | 0, _, _ => none
  | fuel + 1, done, cs =>
    match dropLineEnd? cs, cs with
    | some rest, _ => lines? mark fuel ('\n' :: done) rest
    | none, [] => none
    | none, c :: rest =>
      if c = mark then
        let marks := (cs.takeWhile (· == mark)).length
        if 3 ≤ marks then
          let content := min (marks - 3) 2
          some (done.reverse ++ List.replicate content mark, cs.drop (content + 3))
        else lines? mark fuel (c :: done) rest
      else if c = '\\' ∧ mark = '"' then
        match dropLineEnd? (rest.dropWhile isIndent) with
        | some rest => lines? mark fuel done (dropBlanks rest)
        | none =>
          match escape? rest with
          | some (c, rest) => lines? mark fuel (c :: done) rest
          | none => none
      else if isPlain c then lines? mark fuel (c :: done) rest
      else none

/-- A string on one line, after its first mark. -/
def oneLine? (mark : Char) (cs : List Char) : Option (String × List Char) :=
  (line? mark (cs.length + 1) [] cs).map fun (s, rest) => (String.ofList s, rest)

/-- A string of either kind, after its first mark. A line end directly after three marks is not
part of it. -/
def string? (mark : Char) (cs : List Char) : Option (String × List Char) :=
  match cs with
  | a :: b :: rest =>
    if a = mark ∧ b = mark then
      (lines? mark (rest.length + 1) [] ((dropLineEnd? rest).getD rest)).map
        fun (s, rest) => (String.ofList s, rest)
    else oneLine? mark cs
  | _ => oneLine? mark cs

def isBareChar (c : Char) : Bool := c.isAlphanum || c == '_' || c == '-'

def simpleKey? (cs : List Char) : Option (String × List Char) :=
  match cs with
  | '"' :: rest => oneLine? '"' rest
  | '\'' :: rest => oneLine? '\'' rest
  | _ =>
    match cs.takeWhile isBareChar with
    | [] => none
    | word => some (String.ofList word, cs.dropWhile isBareChar)

/-- Keys with points between them. -/
def keys? : Nat → List Char → Option (List String × List Char)
  | 0, _ => none
  | fuel + 1, cs => do
    let (key, rest) ← simpleKey? (cs.dropWhile isIndent)
    match rest.dropWhile isIndent with
    | '.' :: rest =>
      let (keys, rest) ← keys? fuel rest
      return (key :: keys, rest)
    | rest => return ([key], rest)

/-- Keys, arrays and inline tables go at most this deep. -/
def maxDepth : Nat := 80

/-- Keys with points between them, and the blanks around them. -/
def path? (cs : List Char) : Option (List String × List Char) := do
  let (keys, rest) ← keys? maxDepth cs
  if keys.length < maxDepth then return (keys, rest) else none

end OtaAgent.Toml
