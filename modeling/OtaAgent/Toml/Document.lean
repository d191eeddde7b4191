import OtaAgent.Toml.Quoted

set_option autoImplicit false

namespace OtaAgent.Toml

/-- How a table came into being. -/
inductive Origin
  /-- By a header of its own, or as the document itself. -/
  | header
  /-- On the way to the header of a table in it. -/
  | onTheWay
  /-- By a key with points in it. -/
  | dotted
  deriving DecidableEq, Repr

/-- What a key stands for while the document is read. -/
inductive Item
  | value (v : Toml)
  | table (origin : Origin) (members : List (String × Item))
  /-- An array of tables, the last one first. -/
  | tables (items : List (List (String × Item)))
  deriving Inhabited

abbrev Members := List (String × Item)

def Members.get? (ms : Members) (key : String) : Option Item := ms.lookup key

def Members.set : Members → String → Item → Members
  | [], key, item => [(key, item)]
  | (k, i) :: rest, key, item =>
    if k = key then (k, item) :: rest else (k, i) :: Members.set rest key item

/-- Adds a value under `path`. Tables that have a header are not added to by a path from
outside. -/
def insert? (v : Toml) : List String → Members → Option Members
  | [], _ => none
  | [key], ms => if (ms.get? key).isSome then none else some (ms.set key (.value v))
  | key :: path, ms =>
    let last := path.length = 1
    match ms.get? key with
    | none => do return ms.set key (.table .dotted (← insert? v path []))
    | some (.table .dotted inner) => do return ms.set key (.table .dotted (← insert? v path inner))
    | some (.table .onTheWay inner) =>
      if last then none else do return ms.set key (.table .onTheWay (← insert? v path inner))
    | some (.tables (inner :: others)) =>
      if last then none else do return ms.set key (.tables ((← insert? v path inner) :: others))
    | _ => none

/-- Changes the table that the header `path` stands for. -/
def update? (f : Members → Option Members) : List String → Members → Option Members
  | [], ms => f ms
  | key :: path, ms =>
    match ms.get? key with
    | none => do return ms.set key (.table .onTheWay (← update? f path []))
    | some (.table origin inner) => do return ms.set key (.table origin (← update? f path inner))
    | some (.tables (inner :: others)) => do
      return ms.set key (.tables ((← update? f path inner) :: others))
    | _ => none

def openTable? (key : String) (ms : Members) : Option Members :=
  match ms.get? key with
  | none => some (ms.set key (.table .header []))
  | some (.table .onTheWay inner) => some (ms.set key (.table .header inner))
  | _ => none

def openItem? (key : String) (ms : Members) : Option Members :=
  match ms.get? key with
  | none => some (ms.set key (.tables [[]]))
  | some (.tables items) => some (ms.set key (.tables ([] :: items)))
  | _ => none

mutual

def Item.toToml : Item → Toml
  | .value v => v
  | .table _ members => .table (membersToToml members)
  | .tables items => .array (tablesToToml items).reverse

def membersToToml : List (String × Item) → List (String × Toml)
  | [] => []
  | (key, item) :: rest => (key, item.toToml) :: membersToToml rest

def tablesToToml : List (List (String × Item)) → List Toml
  | [] => []
  | members :: rest => .table (membersToToml members) :: tablesToToml rest

end

def dropComment : List Char → List Char
  | '#' :: rest => rest.dropWhile isPlain
  | cs => cs

/-- Behind blanks, line ends and comments. -/
def dropGap : Nat → List Char → List Char
  | 0, cs => cs
  | fuel + 1, cs =>
    match dropBlanks cs with
    | '#' :: rest => dropGap fuel (rest.dropWhile isPlain)
    | cs => cs

mutual

/-- A value that is `depth` arrays and inline tables deep. -/
def value? : Nat → Nat → List Char → Option (Toml × List Char)
  | 0, _, _ => none
  | fuel + 1, depth, cs =>
    match cs with
    | '"' :: rest => (string? '"' rest).map fun (s, rest) => (.string s, rest)
    | '\'' :: rest => (string? '\'' rest).map fun (s, rest) => (.string s, rest)
    | '[' :: rest =>
      if depth + 1 < maxDepth then
        (items? fuel (depth + 1) [] (dropGap rest.length rest)).map
          fun (items, rest) => (.array items, rest)
      else none
    | '\x7b' :: rest =>
      if depth + 1 < maxDepth then
        match rest.dropWhile isIndent with
        | '\x7d' :: rest => some (.table [], rest)
        | rest => (pairs? fuel (depth + 1) [] rest).map
            fun (ms, rest) => (.table (membersToToml ms), rest)
      else none
    | _ =>
      let (word, rest) := spanScalar cs
      (ofScalar? word).map fun v => (v, rest)

/-- The rest of an array, after the items of `done`, last first. -/
def items? : Nat → Nat → List Toml → List Char → Option (List Toml × List Char)
  | 0, _, _, _ => none
  | fuel + 1, depth, done, cs =>
    match cs with
    | ']' :: rest => some (done.reverse, rest)
    | _ => do
      let (v, rest) ← value? fuel depth cs
      match dropGap rest.length rest with
      | ',' :: rest => items? fuel depth (v :: done) (dropGap rest.length rest)
      | ']' :: rest => return ((v :: done).reverse, rest)
      | _ => none

/-- The rest of an inline table, after the members `ms`. -/
def pairs? : Nat → Nat → Members → List Char → Option (Members × List Char)
  | 0, _, _, _ => none
  | fuel + 1, depth, ms, cs => do
    let (path, rest) ← path? cs
    match rest with
    | '=' :: rest =>
      let (v, rest) ← value? fuel depth (rest.dropWhile isIndent)
      let ms ← insert? v path ms
      match rest.dropWhile isIndent with
      | ',' :: rest => pairs? fuel depth ms rest
      | '\x7d' :: rest => return (ms, rest)
      | _ => none
    | _ => none

end

/-- Behind the end of a line that holds nothing more. -/
def endOfLine? (cs : List Char) : Option (List Char) :=
  match dropComment (cs.dropWhile isIndent) with
  | [] => some []
  | rest => dropLineEnd? rest

/-- A header, after its first bracket: whether it is of an array of tables, and its path. -/
def header? (cs : List Char) : Option (Bool × List String × List Char) :=
  match cs with
  | '[' :: rest => do
    let (path, rest) ← path? rest
    match rest with
    | ']' :: ']' :: rest => return (true, path, rest)
    | _ => none
  | _ => do
    let (path, rest) ← path? cs
    match rest with
    | ']' :: rest => return (false, path, rest)
    | _ => none

/-- Reads on line by line; values go to the table under the last header, `at_`. -/
def document? : Nat → List String → Members → List Char → Option Members
  | 0, _, ms, cs => if cs.isEmpty then some ms else none
  | fuel + 1, at_, ms, cs =>
    match cs.dropWhile isIndent with
    | [] => some ms
    | '#' :: rest => do document? fuel at_ ms (← endOfLine? ('#' :: rest))
    | '\n' :: rest => document? fuel at_ ms rest
    | '\r' :: '\n' :: rest => document? fuel at_ ms rest
    | '[' :: rest => do
      let (isItem, path, rest) ← header? rest
      let key ← path.getLast?
      let ms ← update? (if isItem then openItem? key else openTable? key) path.dropLast ms
      document? fuel path ms (← endOfLine? rest)
    | rest => do
      let (path, rest) ← path? rest
      match rest with
      | '=' :: rest =>
        let rest := rest.dropWhile isIndent
        let (v, rest) ← value? (rest.length + 1) 0 rest
        let ms ← update? (insert? v path) at_ ms
        document? fuel at_ ms (← endOfLine? rest)
      | _ => none

/-- The table that `s` is the text of; a byte order mark may stand before it. -/
def parse? (s : String) : Option (List (String × Toml)) :=
  let cs := match s.toList with
    | '\ufeff' :: rest => rest
    | cs => cs
  (document? (cs.length + 1) [] [] cs).map membersToToml

end OtaAgent.Toml
