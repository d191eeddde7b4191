import OtaAgent.Json.Printer
import OtaAgent.Json.Reader
import OtaAgent.Path

set_option autoImplicit false

namespace OtaAgent

/-- What is kept of an installed version. The digest is in its written form, empty if none was
known. -/
structure Backup where
  downloaded : Bool
  digest : String
  file : Path
  deriving DecidableEq, Repr

structure History where
  current : String
  /-- What is kept of every version that ever was. -/
  backups : Table Backup
  deriving DecidableEq, Repr

namespace Backup

open Json

def toJson (b : Backup) : Json :=
  .object [("downloaded", .bool b.downloaded), ("sha-256", .string b.digest),
    ("file", .string b.file.text)]

def ofDoc? (d : Doc) : Option Backup := do
  match ← fields? ["downloaded", "sha-256", "file"] 3 d with
  | [downloaded, digest, file] =>
    return {
      downloaded := ← required? flag? downloaded
      digest := ← required? text? digest
      file := ⟨← required? text? file⟩ }
  | _ => none

end Backup

namespace History

open Json

def fresh (version : String) : History := ⟨version, []⟩

/-- Something is kept of the version that is installed, unless nothing is kept at all. -/
def isConsistent (h : History) : Bool := h.backups.isEmpty || h.backups.contains h.current

def install (h : History) (version : String) (backup : Backup) : History :=
  ⟨version, h.backups.insert version backup⟩

def goBackTo (h : History) (version : String) : History := { h with current := version }

def toJson (h : History) : Json :=
  .object [("version", .string h.current),
    ("version-list", .object (h.backups.map fun (version, b) => (version, b.toJson)))]

def ofDoc? (d : Doc) : Option History := do
  match ← fields? ["version", "version-list"] 1 d with
  | [current, backups] =>
    return {
      current := ← required? text? current
      backups := ← default? [] (table? Backup.ofDoc?) backups }
  | _ => none

def text (h : History) : String := h.toJson.pretty

def parse? (s : String) : Option History := (Doc.parse? s).bind ofDoc?

end History
end OtaAgent
