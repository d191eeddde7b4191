import OtaAgent.Path
import OtaAgent.Status

set_option autoImplicit false

namespace OtaAgent

/-- A package in one version. -/
structure Release where
  name : String
  version : String
  deriving DecidableEq, Repr

def Release.text (r : Release) : String := r.name ++ ":" ++ r.version

/-- A package file that an order offers for one version. -/
structure Offer where
  version : String
  file : Path
  /-- The digest of the file as it was sent. -/
  digest : Option String
  downloaded : Bool
  deriving DecidableEq, Repr

/-- An order of the device manager to prepare or to install an update. -/
structure Order where
  release : Release
  handler : String
  offers : List Offer
  /-- The older version to go back to, if the order is for a rollback. -/
  rollbackVersion : Option String
  /-- The versions to fall back to if the update fails, best first. -/
  rollbackVersions : List String
  deriving DecidableEq, Repr

namespace Order

def target (o : Order) : String := o.rollbackVersion.getD o.release.version

def targetRelease (o : Order) : Release := ⟨o.release.name, o.target⟩

def offer? (o : Order) (version : String) : Option Offer :=
  o.offers.find? (·.version == version)

end Order

structure Update where
  release : Release
  /-- The version that the order announced; another one in a rollback that was ordered. -/
  announced : String
  file : Path
  /-- The digest of the file as it was sent. -/
  received : Option String
  downloaded : Bool
  isBackup : Bool
  transferred : Option Int
  prepared : Option InstallStatus
  installed : Option InstallStatus
  fallback : Option String
  deriving DecidableEq, Repr

namespace Update

def ofFile (release : Release) (file : Path) : Update where
  release
  announced := release.version
  file
  received := none
  downloaded := true
  isBackup := false
  transferred := none
  prepared := none
  installed := none
  fallback := none

def name (u : Update) : String := u.release.name

def version (u : Update) : String := u.release.version

/-- With the file that later steps use at `path`, if there is a new one. -/
def relocated (u : Update) : Option Path → Update
  | some path => { u with file := path }
  | none => u

/-- With `version` to fall back to, if one is named. -/
def fallingBackTo (u : Update) : Option String → Update
  | some version => { u with fallback := some version }
  | none => u

def isStaged (u : Update) : Bool := u.prepared == some .ready

def isFor (u : Update) (o : Order) : Bool := u.release == o.targetRelease

end Update
end OtaAgent
