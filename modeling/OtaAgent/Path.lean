set_option autoImplicit false

namespace OtaAgent

/-- The runs of characters between slashes; a text without a slash is one run. -/
def slashRuns : List Char → List (List Char)
  | [] => [[]]
  | c :: cs =>
    if c = '/' then [] :: slashRuns cs
    else match slashRuns cs with
      | run :: runs => (c :: run) :: runs
      | [] => [[c]]

/-- The text that has `runs` between its slashes. -/
def joinRuns : List (List Char) → List Char
  | [] => []
  | [run] => run
  | run :: runs => run ++ '/' :: joinRuns runs

theorem slashRuns_ne_nil (cs : List Char) : slashRuns cs ≠ [] := by
  cases cs with
  | nil => simp [slashRuns]
  | cons c cs =>
    simp only [slashRuns]
    split
    · simp
    · split <;> simp

theorem joinRuns_slashRuns (cs : List Char) : joinRuns (slashRuns cs) = cs := by
  induction cs with
  | nil => rfl
  | cons c cs ih =>
    have full := slashRuns_ne_nil cs
    simp only [slashRuns]
    split
    · rename_i slash
      cases runs : slashRuns cs with
      | nil => exact absurd runs full
      | cons run rest => rw [joinRuns, ← runs, ih, slash] <;> simp
    · cases runs : slashRuns cs with
      | nil => exact absurd runs full
      | cons run rest =>
        rw [runs] at ih
        cases rest <;> simp_all [joinRuns]

structure Path where
  text : String
  deriving DecidableEq, Repr, Inhabited

namespace Path

inductive Part
  | root
  | here
  | up
  | name (s : String)
  deriving DecidableEq, Repr

def isAbsolute (p : Path) : Bool := p.text.toList.head? == some '/'

/-- A leading `/` or `.` component, and the runs after it. -/
def split (p : Path) : List Char × List (List Char) :=
  match p.text.toList with
  | '/' :: cs => (['/'], slashRuns cs)
  | ['.'] => (['.'], [])
  | '.' :: '/' :: cs => (['.'], [] :: slashRuns cs)
  | cs => ([], slashRuns cs)

/-- Runs that are no component: empty ones and `.`. -/
def isFiller (run : List Char) : Bool := run == [] || run == ['.']

def partOfRun (run : List Char) : Part :=
  if run = ['.', '.'] then .up else .name (String.ofList run)

def parts (p : Path) : List Part :=
  let (head, runs) := p.split
  (if head = ['/'] then [.root] else if head = ['.'] then [.here] else []) ++
    (runs.filter (!isFiller ·)).map partOfRun

/-- Whether two paths have the same components. -/
def same (p q : Path) : Bool := decide (p.parts = q.parts)

def dropFiller (runs : List (List Char)) : List (List Char) :=
  (runs.reverse.dropWhile isFiller).reverse

/-- The last component, if it is a name. -/
def fileName? (p : Path) : Option String :=
  match (dropFiller p.split.2).getLast? with
  | some run => if run = ['.', '.'] then none else some (String.ofList run)
  | none => none

/-- The path without its last component; the root and the empty path have none. -/
def parent? (p : Path) : Option Path :=
  let (head, runs) := p.split
  match dropFiller runs with
  | [] => if head = ['.'] then some ⟨""⟩ else none
  | runs => some ⟨String.ofList (head ++ joinRuns (dropFiller runs.dropLast))⟩

/-- `p` and all paths above it, `p` first. -/
def ancestry (p : Path) : List Path :=
  go (p.text.length + 1) p
where
  go : Nat → Path → List Path
    | 0, _ => []
    | fuel + 1, p => p :: (match p.parent? with | some q => go fuel q | none => [])

/-- `dir` followed by `tail`, which replaces it when it is absolute. -/
def join (dir : Path) (tail : String) : Path :=
  if (Path.mk tail).isAbsolute then ⟨tail⟩
  else if dir.text.isEmpty || dir.text.toList.getLast? == some '/' then ⟨dir.text ++ tail⟩
  else ⟨dir.text ++ "/" ++ tail⟩

def suffixed (p : Path) (suffix : String) : Path := ⟨p.text ++ suffix⟩

end Path
end OtaAgent
