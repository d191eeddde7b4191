import OtaAgent.Files.Tree

set_option autoImplicit false

namespace OtaAgent.Files

inductive Op
  | makeDirs (p : Path)
  | probe (p : Path)
  | openFile (p : Path)
  | read (p : Path)
  | touch (p : Path)
  | create (p : Path)
  | append (p : Path) (bytes : Bytes)
  | copy (src dst : Path)
  | rename (src dst : Path)
  | removeAll (p : Path)
  deriving DecidableEq, Repr

/-- The bytes read, or none for an operation that reads nothing. -/
abbrev Reply := Except IoFault Bytes

/-- An operation that changes the tree only if it succeeds. -/
def settle (t : Tree) : Except IoFault Tree → Reply × Tree
  | .ok t => (.ok [], t)
  | .error e => (.error e, t)

def silent (r : Except IoFault Unit × Tree) : Reply × Tree := (r.1.map fun _ => [], r.2)

def Op.apply (t : Tree) : Op → Reply × Tree
  | .makeDirs p => silent (t.makeDirs p)
  | .probe p => (if t.present p then .ok [] else .error .notFound, t)
  | .openFile p => ((t.stat p).map fun _ => [], t)
  | .read p => (t.read p, t)
  | .touch p => settle t (t.touch p)
  | .create p => settle t (t.create p)
  | .append p bytes => settle t (t.append p bytes)
  | .copy src dst => settle t (t.copy src dst)
  | .rename src dst => settle t (t.rename src dst)
  | .removeAll p => silent (t.removeAll p)

inductive Script (α : Type)
  | done (a : α)
  | call (op : Op) (next : Reply → Script α)

namespace Script

variable {α β : Type}

def run : Script α → Tree → α × Tree
  | done a, t => (a, t)
  | call op next, t =>
    let (reply, t) := op.apply t
    (next reply).run t

def bind : Script α → (α → Script β) → Script β
  | done a, f => f a
  | call op next, f => call op fun reply => (next reply).bind f

instance : Monad Script where
  pure := done
  bind := bind

def ask (op : Op) : Script Reply := call op done

theorem run_bind (s : Script α) (f : α → Script β) (t : Tree) :
    (s >>= f).run t = (f (s.run t).1).run (s.run t).2 := by
  show (s.bind f).run t = _
  induction s generalizing t with
  | done a => rfl
  | call op next ih => exact ih _ _

end Script

/-- A script that may give up with an error of type `ε`. -/
abbrev Job (ε α : Type) := ExceptT ε Script α

/-- Carries out `op`, and gives up with `fault e` if it is refused for `e`. -/
def Job.attempt {ε : Type} (op : Op) (fault : IoFault → ε) : Job ε Bytes :=
  ExceptT.mk do
    match ← Script.ask op with
    | .ok bytes => return .ok bytes
    | .error e => return .error (fault e)

/-- The answer to `op`, refused or not. -/
def Job.ask {ε : Type} (op : Op) : Job ε Reply := ExceptT.lift (Script.ask op)

def Job.runOn {ε α : Type} (job : Job ε α) (t : Tree) : Except ε α × Tree :=
  Script.run (ExceptT.run job) t

end OtaAgent.Files
