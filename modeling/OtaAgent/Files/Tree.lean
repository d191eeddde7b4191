import OtaAgent.Path
import OtaAgent.Text.Utf8

set_option autoImplicit false

namespace OtaAgent

inductive IoFault
  | notFound
  | notDirectory
  | isDirectory
  | alreadyExists
  | notEmpty
  | busy
  | invalidPath
  | nulInPath
  | nulInCommand
  | nameTooLong
  | notRegular
  | notText
  | unreachable
  deriving DecidableEq, Repr

/-- Systems word their faults differently, so those read the same. A text with a NUL is refused
before a system sees it. -/
def IoFault.message : IoFault → String
  | nulInPath => "file name contained an unexpected NUL byte"
  | nulInCommand => "nul byte found in provided data"
  | _ => "<io>"

namespace Files

/-- Names from the root down. -/
abbrev Location := List String

inductive Node
  | file (content : Bytes)
  | dir
  deriving DecidableEq, Repr

/-- What lies where. The root is a directory and is not listed. -/
structure Tree where
  nodes : List (Location × Node)
  cwd : Location
  /-- Whether the working directory has been taken away. Another one may have been made in its
  place, but relative paths do not lead there. -/
  cwdLost : Bool
  deriving Repr

/-- What a path leads to: a directory reached by a `.`, a `..` or the root at its end, the working
directory after it was taken away, or the entry of a name in a directory. A slash may follow that
name. -/
inductive Place
  | directory (at_ : Location)
  | lost
  | entry (parent : Location) (name : String) (slash : Bool)
  deriving DecidableEq, Repr

/-- Names longer than this many bytes are refused. -/
def maxName : Nat := 255

/-- Paths of this many bytes or more are refused. -/
def maxPath : Nat := 4096

namespace Tree

def empty (cwd : Location) : Tree := ⟨[], cwd, false⟩

def node? (t : Tree) (at_ : Location) : Option Node :=
  if at_ = [] then some .dir else t.nodes.lookup at_

def put (t : Tree) (at_ : Location) (n : Node) : Tree :=
  { t with nodes := (at_, n) :: t.nodes.filter (fun e => e.1 ≠ at_) }

/-- Without what lies where `gone` says. -/
def without (t : Tree) (gone : Location → Bool) : Tree :=
  { t with
    nodes := t.nodes.filter fun e => !gone e.1
    cwdLost := t.cwdLost || gone t.cwd }

theorem cwdLost_without (t : Tree) (gone : Location → Bool) (h : t.cwdLost = true) :
    (t.without gone).cwdLost = true := by
  simp [without, h]

/-- Without the entry at `at_`; what lies below it stays. -/
def erase (t : Tree) (at_ : Location) : Tree := t.without (· == at_)

def eraseBelow (t : Tree) (at_ : Location) : Tree :=
  t.without fun key => at_.isPrefixOf key && key != at_

theorem lookup_filter_ne (l : List (Location × Node)) (at_ other : Location) (h : other ≠ at_) :
    (l.filter (fun e => e.1 ≠ at_)).lookup other = l.lookup other := by
  induction l with
  | nil => rfl
  | cons e rest ih =>
    obtain ⟨key, value⟩ := e
    by_cases hit : key = at_
    · have : (other == at_) = false := by simpa using h
      simp only [ne_eq, hit, not_true_eq_false, decide_false, Bool.false_eq_true,
        not_false_eq_true, List.filter_cons_of_neg, List.lookup_cons, this]
      exact ih
    · simp only [ne_eq, hit, not_false_eq_true, decide_true, List.filter_cons_of_pos,
        List.lookup_cons]
      split
      · rfl
      · exact ih

theorem node?_put (t : Tree) (at_ other : Location) (n : Node) (h : at_ ≠ []) :
    (t.put at_ n).node? other = if other = at_ then some n else t.node? other := by
  by_cases same : other = at_
  · subst same; simp [node?, put, h]
  · by_cases top : other = []
    · subst top; simp [node?, same]
    · have miss : (other == at_) = false := by simpa using same
      simp only [node?, put, top, if_false, same, List.lookup_cons, miss]
      exact lookup_filter_ne t.nodes at_ other same

/-- Follows `names` from `at_`. -/
def walk (t : Tree) (slash : Bool) : Location → List String → Except IoFault Place
  | at_, [] => .ok (.directory at_)
  | at_, [name] =>
    if name = "." then .ok (.directory at_)
    else if name = ".." then .ok (.directory at_.dropLast)
    else if maxName < name.utf8ByteSize then .error .nameTooLong
    else .ok (.entry at_ name slash)
  | at_, name :: names =>
    if name = "." then walk t slash at_ names
    else if name = ".." then walk t slash at_.dropLast names
    else if maxName < name.utf8ByteSize then .error .nameTooLong
    else match t.node? (at_ ++ [name]) with
      | some .dir => walk t slash (at_ ++ [name]) names
      | some (.file _) => .error .notDirectory
      | none => .error .notFound

/-- Follows `names` from the working directory after it was taken away. Nothing lies in it, and
nothing can be made in it. -/
def walkLost (t : Tree) (slash : Bool) : List String → Except IoFault Place
  | [] => .ok .lost
  | name :: names =>
    if name = "." then walkLost t slash names
    else if name = ".." then walk t slash t.cwd.dropLast names
    else .error .notFound

def place (t : Tree) (p : Path) : Except IoFault Place :=
  let cs := p.text.toList
  let slash := cs.getLast? == some '/'
  let names := ((slashRuns cs).filter (· ≠ [])).map String.ofList
  if cs = [] then .error .notFound
  else if '\x00' ∈ cs then .error .nulInPath
  else if maxPath ≤ p.text.utf8ByteSize then .error .nameTooLong
  else if p.isAbsolute then walk t slash [] names
  else if t.cwdLost then walkLost t slash names
  else walk t slash t.cwd names

/-- Where the directory lies that `p` leads to; one that was taken away lies nowhere. -/
def dirAt (t : Tree) (p : Path) : Except IoFault (Option Location) :=
  match t.place p with
  | .error e => .error e
  | .ok (.directory at_) => .ok (some at_)
  | .ok .lost => .ok none
  | .ok (.entry parent name _) =>
    match t.node? (parent ++ [name]) with
    | none => .error .notFound
    | some (.file _) => .error .notDirectory
    | some .dir => .ok (some (parent ++ [name]))

/-- Where the file lies that `p` leads to, and what it holds. -/
def fileAt (t : Tree) (p : Path) : Except IoFault (Location × Bytes) :=
  match t.place p with
  | .error e => .error e
  | .ok (.directory _) => .error .isDirectory
  | .ok .lost => .error .isDirectory
  | .ok (.entry parent name slash) =>
    match t.node? (parent ++ [name]) with
    | none => .error .notFound
    | some .dir => .error .isDirectory
    | some (.file content) =>
      if slash then .error .notDirectory else .ok (parent ++ [name], content)

def stat (t : Tree) (p : Path) : Except IoFault Node :=
  match t.fileAt p with
  | .ok (_, content) => .ok (.file content)
  | .error .isDirectory => .ok .dir
  | .error e => .error e

def present (t : Tree) (p : Path) : Bool :=
  match t.stat p with
  | .ok _ => true
  | .error _ => false

def isDir (t : Tree) (p : Path) : Bool :=
  match t.dirAt p with
  | .ok _ => true
  | .error _ => false

def read (t : Tree) (p : Path) : Except IoFault Bytes := (t.fileAt p).map (·.2)

def readText (t : Tree) (p : Path) : Except IoFault String :=
  match t.read p with
  | .ok content =>
    match Text.Utf8.decode? content with
    | some s => .ok s
    | none => .error .notText
  | .error e => .error e

/-- Where a file can be opened for writing at `p`, and what it holds if it is there. -/
def target (t : Tree) (p : Path) : Except IoFault (Location × Option Bytes) :=
  match t.place p with
  | .error e => .error e
  | .ok (.directory _) => .error .isDirectory
  | .ok .lost => .error .isDirectory
  | .ok (.entry parent name slash) =>
    if slash then .error .isDirectory
    else if t.node? parent ≠ some .dir then .error .notFound
    else match t.node? (parent ++ [name]) with
      | some .dir => .error .isDirectory
      | some (.file content) => .ok (parent ++ [name], some content)
      | none => .ok (parent ++ [name], none)

/-- An empty file at `p`; a file that is there loses its content. -/
def create (t : Tree) (p : Path) : Except IoFault Tree :=
  (t.target p).map fun (at_, _) => t.put at_ (.file [])

/-- A file at `p`, which keeps its content if it is there. -/
def touch (t : Tree) (p : Path) : Except IoFault Tree :=
  (t.target p).map fun (at_, content) => t.put at_ (.file (content.getD []))

/-- Writes `bytes` at the end of the file at `p`. -/
def append (t : Tree) (p : Path) (bytes : Bytes) : Except IoFault Tree :=
  match t.target p with
  | .ok (at_, some content) => .ok (t.put at_ (.file (content ++ bytes)))
  | .ok (_, none) => .error .notFound
  | .error e => .error e

def write (t : Tree) (p : Path) (bytes : Bytes) : Except IoFault Tree :=
  (t.target p).map fun (at_, _) => t.put at_ (.file bytes)

def makeDir (t : Tree) (p : Path) : Except IoFault Tree :=
  match t.place p with
  | .error e => .error e
  | .ok (.directory _) => .error .alreadyExists
  | .ok .lost => .error .alreadyExists
  | .ok (.entry parent name _) =>
    if t.node? parent ≠ some .dir then .error .notFound
    else match t.node? (parent ++ [name]) with
      | some _ => .error .alreadyExists
      | none => .ok (t.put (parent ++ [name]) .dir)

/-- Makes the first of `paths`, and the ones after it first if its parent is missing. -/
def makeDirsAlong : List Path → Tree → Except IoFault Unit × Tree
  | [], t => (.error .notFound, t)
  | p :: up, t =>
    if p.text = "" then (.ok (), t)
    else match t.makeDir p with
      | .ok t => (.ok (), t)
      | .error .notFound =>
        match makeDirsAlong up t with
        | (.error e, t) => (.error e, t)
        | (.ok (), t) =>
          match t.makeDir p with
          | .ok t => (.ok (), t)
          | .error e => (if t.isDir p then .ok () else .error e, t)
      | .error e => (if t.isDir p then .ok () else .error e, t)

/-- The directory `p` with all directories above it; those that could be made stay made when it
cannot. -/
def makeDirs (t : Tree) (p : Path) : Except IoFault Unit × Tree := makeDirsAlong p.ancestry t

/-- Replaces or creates `dst` by a copy of `src`. The target is emptied before anything is read,
so a file copied onto itself ends up empty. -/
def copy (t : Tree) (src dst : Path) : Except IoFault Tree :=
  match t.stat src with
  | .error e => .error e
  | .ok .dir => .error .notRegular
  | .ok (.file _) => do
    let emptied ← t.create dst
    emptied.write dst (← emptied.read src)

/-- Moves the file `src` to `dst` in one step; a file that is there is replaced. -/
def rename (t : Tree) (src dst : Path) : Except IoFault Tree := do
  let (source, content) ← t.fileAt src
  match ← t.place dst with
  | .directory _ => .error .busy
  | .lost => .error .busy
  | .entry parent name slash =>
    if slash then .error .notDirectory
    else if t.node? parent ≠ some .dir then .error .notFound
    else match t.node? (parent ++ [name]) with
      | some .dir => .error .isDirectory
      | _ => .ok ((t.erase source).put (parent ++ [name]) (.file content))

def removeFile (t : Tree) (p : Path) : Except IoFault Tree :=
  (t.fileAt p).map fun (at_, _) => t.erase at_

def removeDir (t : Tree) (p : Path) : Except IoFault Tree :=
  match t.place p with
  | .error e => .error e
  | .ok (.directory at_) =>
    .error (if at_ = [] then .busy else if p.text.endsWith ".." then .notEmpty else .invalidPath)
  | .ok .lost => .error .invalidPath
  | .ok (.entry parent name _) =>
    match t.node? (parent ++ [name]) with
    | none => .error .notFound
    | some (.file _) => .error .notDirectory
    | some .dir => .ok (t.erase (parent ++ [name]))

/-- Takes away all that lies in the directory `p`, then the directory. The last step can fail and
what lay below is gone nevertheless. A path that went through what lay below leads nowhere then, and
that is as good. -/
def removeAll (t : Tree) (p : Path) : Except IoFault Unit × Tree :=
  match t.dirAt p with
  | .error e => (.error e, t)
  | .ok at_ =>
    let emptied := match at_ with
      | some at_ => t.eraseBelow at_
      | none => t
    match emptied.removeDir p with
    | .ok t => (.ok (), t)
    | .error .notFound => (.ok (), emptied)
    | .error e => (.error e, emptied)

/-- Writes the file at `p` and makes the directories above it first. -/
def supply (t : Tree) (p : Path) (bytes : Bytes) : Except IoFault Unit × Tree :=
  let (made, t) := match p.parent? with
    | some dir => t.makeDirs dir
    | none => (.ok (), t)
  match made, t.write p bytes with
  | .error e, _ => (.error e, t)
  | .ok (), .error e => (.error e, t)
  | .ok (), .ok t => (.ok (), t)

/-- Takes away a file, or a directory with all that lies in it. -/
def discard (t : Tree) (p : Path) : Except IoFault Unit × Tree :=
  if t.isDir p then t.removeAll p
  else match t.removeFile p with
    | .ok t => (.ok (), t)
    | .error e => (.error e, t)

/-- All that lies below `at_`, by its names from there. -/
def below (t : Tree) (at_ : Location) : List (Location × Node) :=
  t.nodes.filterMap fun (key, n) =>
    if at_.isPrefixOf key && key != at_ then some (key.drop at_.length, n) else none

/-- All that lies below the directory `p`; nothing if there is none. -/
def listing (t : Tree) (p : Path) : List (Location × Node) :=
  match t.dirAt p with
  | .ok (some at_) => t.below at_
  | _ => []

end Tree
end Files
end OtaAgent
