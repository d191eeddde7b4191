import OtaAgent.Digest
import OtaAgent.Fault
import OtaAgent.Files.Script
import OtaAgent.Journal

set_option autoImplicit false

namespace OtaAgent

open Files

/-- A log file that was opened. It is written to where it was found then. -/
structure LogFile where
  path : Path
  at_ : Location
  deriving DecidableEq, Repr

namespace LogFile

def openJob (path : Path) : Job Error Unit := do
  if let some dir := path.parent? then
    let _ ← Job.attempt (.makeDirs dir) (.file (.makeLogDir dir))
  let _ ← Job.attempt (.touch path) (.file (.openLog path))

/-- Opens the log at `path`, which goes on where it ended. -/
def openIn (t : Tree) (path : Path) : Except Error LogFile × Tree :=
  match (openJob path).runOn t with
  | (.error e, t) => (.error e, t)
  | (.ok (), t) =>
    match t.fileAt path with
    | .ok (at_, _) => (.ok ⟨path, at_⟩, t)
    | .error e => (.error (.file (.openLog path) e), t)

variable (log : LogFile)

/-- Adds lines to the log; they are lost if the file was taken away. -/
def write (t : Tree) (lines : List String) : Tree :=
  match t.node? log.at_ with
  | some (.file content) => t.put log.at_ (.file (content ++ lines.flatMap Text.Utf8.encode))
  | _ => t

def sealPath : Path := log.path.suffixed ".hash"

def sealText (content : Bytes) : String :=
  (Digest.ofContent content).hex ++ "  " ++ (log.path.fileName?.getD "") ++ "\n"

def finish : Job Error Unit := do
  let content ← Job.attempt (.read log.path) (.file (.readLog log.path))
  let file := log.sealPath
  let _ ← Job.attempt (.create file) (.file (.createHashFile file))
  let _ ← Job.attempt (.append file (Text.Utf8.encode (log.sealText content)))
    (.file (.writeHashFile file))

end LogFile

/-- A log that is kept: the entry that is made after so many others bears the time that `clock`
gives. -/
structure Logbook where
  file : LogFile
  clock : Nat → Timestamp

/-- Adds all entries of `journal` but the first `written` ones. -/
def Logbook.enter (book : Logbook) (t : Tree) (journal : List LogEntry) (written : Nat) : Tree :=
  book.file.write t
    ((journal.drop written).mapIdx fun i entry => entry.line (book.clock (written + i)))

end OtaAgent
