import OtaAgent.Files.Tree
import OtaAgent.Text.Quoted

set_option autoImplicit false

namespace OtaAgent

inductive ConfigFault
  | invalidToml
  | unreadable (path : Path) (cause : IoFault)
  | inFile (path : Path) (fault : ConfigFault)
  | emptyBusUrl
  | emptyCertDir
  | emptyHandler
  | deltaNeedsDirs
  | badBusUrl (url : String)
  | passwordUnset (var : String)
  | rollbackVersionMissing
  | other (text : String)
  deriving DecidableEq, Repr

inductive DeliveryFault
  | badDigest (text package : String)
  | mismatch (file : Path) (expected found : String)
  | getFailed (url : String)
  | answered (url status : String)
  | readFailed (url : String)
  | other (text : String)
  deriving DecidableEq, Repr

inductive ArchiveFault
  | badName (package : String)
  | noHistory (package : String)
  | noVersion (package version : String)
  | unreadable (history : Path) (cause : IoFault)
  | lockNotOpened (lock : Path) (cause : IoFault)
  | notCreated (file : Path) (cause : IoFault)
  | notWritten (file : Path) (cause : IoFault)
  | notReplaced (history draft : Path) (cause : IoFault)
  | other (text : String)
  deriving DecidableEq, Repr

inductive BusFault
  | refused
  | alreadyStarted
  | notStarted
  | notConnected (address : String) (cause : IoFault)
  | notSent (cause : IoFault)
  | other (text : String)
  deriving DecidableEq, Repr

inductive FormatFault
  | invalidJson
  | unknownStatus (text : String)
  | noPackage (kind : String)
  | noVersion (kind package : String)
  | corruptHistory (history : Path)
  | currentOutsideHistory (history : Path) (version : String)
  | other (text : String)
  deriving DecidableEq, Repr

inductive FileTask
  | makeVersionDir (dir : Path)
  | makeBackupDir (dir : Path)
  | backUp (file copy : Path)
  | openForHash (file : Path)
  | hash (file : Path)
  | makeLogDir (dir : Path)
  | openLog (file : Path)
  | readLog (file : Path)
  | createHashFile (file : Path)
  | writeHashFile (file : Path)
  | makeTransferDir (dir : Path)
  | create (file : Path)
  | moveIntoPlace (file : Path)
  | clear (dir : Path)
  | makeCacheDir (dir : Path)
  | stage (file staged : Path)
  deriving DecidableEq, Repr

inductive RuntimeFault
  | progressOutOfRange (percent : Nat) (package : String)
  | notSpawned (command : String) (cause : IoFault)
  | unknownVariant (name : String)
  | other (text : String)
  deriving DecidableEq, Repr

inductive Error
  | commandMissing (command : String)
  | commandFailure (command : String) (status : Int) (stderr : String)
  | config (fault : ConfigFault)
  | delivery (fault : DeliveryFault)
  | archive (fault : ArchiveFault)
  | bus (fault : BusFault)
  | format (fault : FormatFault)
  | file (task : FileTask) (cause : IoFault)
  | fileOther (text : String)
  | hook (name reason : String)
  | invalidTransition (source target : String)
  | runtime (fault : RuntimeFault)
  | io (cause : IoFault)
  | ioOther (text : String)
  deriving DecidableEq, Repr

namespace ConfigFault

def message : ConfigFault → String
  | invalidToml => "invalid TOML: <toml>"
  | unreadable path cause => s!"Failed to read configuration {path.text}: {cause.message}"
  | inFile path fault => s!"{path.text}: {fault.message}"
  | emptyBusUrl => "bus url must not be empty"
  | emptyCertDir => "certificate directory must not be empty"
  | emptyHandler => "node type must not be empty"
  | deltaNeedsDirs => "cache and backup directories are required when delta is enabled"
  | badBusUrl url => "bus url `" ++ url ++ "` is not of the form tcp://host:port"
  | passwordUnset var => "transfer password variable `" ++ var ++ "` is not set"
  | rollbackVersionMissing => "rollback mode needs the final rollback version (--rver)"
  | other text => text

end ConfigFault

def DeliveryFault.message : DeliveryFault → String
  | badDigest text package => s!"unreadable sha-256 {Text.quoted text} for {package}"
  | mismatch file expected found =>
    s!"checksum mismatch for {file.text}: expected {expected}, found {found}"
  | getFailed url => s!"GET {url} failed: <http>"
  | answered url status => s!"GET {url} answered {status}"
  | readFailed url => s!"reading {url} failed: <http>"
  | other text => text

def ArchiveFault.message : ArchiveFault → String
  | badName package => "package name `" ++ package ++ "` cannot be used as a record file name"
  | noHistory package => s!"no version record for {package}"
  | noVersion package version => s!"{package} has no recorded version {version} to restore"
  | unreadable history cause => s!"Failed to read {history.text}: {cause.message}"
  | lockNotOpened lock cause => s!"Failed to open lock {lock.text}: {cause.message}"
  | notCreated file cause => s!"Failed to create {file.text}: {cause.message}"
  | notWritten file cause => s!"Failed to write {file.text}: {cause.message}"
  | notReplaced history draft cause =>
    s!"Failed to replace {history.text} with {draft.text}: {cause.message}"
  | other text => text

def BusFault.message : BusFault → String
  | refused => "memory bus refused the message"
  | alreadyStarted => "memory bus already started"
  | notStarted => "bus not started"
  | notConnected address cause => s!"Failed to connect to {address}: {cause.message}"
  | notSent cause => s!"send failed: {cause.message}"
  | other text => text

def FormatFault.message : FormatFault → String
  | invalidJson => "<json>"
  | unknownStatus text => "unknown status `" ++ text ++ "`"
  | noPackage kind => s!"{kind} without package"
  | noVersion kind package => s!"{kind} for {package} carries no version"
  | corruptHistory history => s!"Corrupt version record {history.text}: <json>"
  | currentOutsideHistory history version =>
    s!"Version record {history.text} names current version {version} outside its history"
  | other text => text

def FileTask.failure : FileTask → String
  | makeVersionDir dir => s!"Failed to create version directory {dir.text}"
  | makeBackupDir dir => s!"Failed to create backup directory {dir.text}"
  | backUp file copy => s!"Failed to back up {file.text} to {copy.text}"
  | openForHash file => s!"Failed to open {file.text} for hashing"
  | hash file => s!"Failed to hash {file.text}"
  | makeLogDir dir => s!"Failed to create log directory {dir.text}"
  | openLog file => s!"Failed to open log file {file.text}"
  | readLog file => s!"Failed to read log for hashing {file.text}"
  | createHashFile file => s!"Failed to create hash file {file.text}"
  | writeHashFile file => s!"Failed to write hash file {file.text}"
  | makeTransferDir dir => s!"Failed to create transfer directory {dir.text}"
  | create file => s!"Failed to create {file.text}"
  | moveIntoPlace file => s!"Failed to move {file.text} into place"
  | clear dir => s!"Failed to clear {dir.text}"
  | makeCacheDir dir => s!"Failed to create cache directory {dir.text}"
  | stage file staged => s!"Failed to stage {file.text} at {staged.text}"

def RuntimeFault.message : RuntimeFault → String
  | progressOutOfRange percent package => s!"progress {percent}% out of range for {package}"
  | notSpawned command cause => s!"Failed to spawn {command}: {cause.message}"
  | unknownVariant name => s!"invalid variant: {name}"
  | other text => text

namespace Error

def message : Error → String
  | commandMissing command => "Required command `" ++ command ++ "` not found in PATH"
  | commandFailure command status stderr =>
    "Command `" ++ command ++ s!"` failed with status {status}: {stderr}"
  | config fault => s!"Configuration: {fault.message}"
  | delivery fault => s!"Transfer: {fault.message}"
  | archive fault => s!"Persistence: {fault.message}"
  | bus fault => s!"Bus: {fault.message}"
  | format fault => s!"Serialization: {fault.message}"
  | file task cause => s!"Filesystem: {task.failure}: {cause.message}"
  | fileOther text => s!"Filesystem: {text}"
  | hook name reason => "Hook `" ++ name ++ s!"` failed: {reason}"
  | invalidTransition source target => s!"Invalid lifecycle transition {source} -> {target}"
  | runtime fault => s!"Runtime: {fault.message}"
  | io cause => cause.message
  | ioOther text => text

def exitCode : Error → Nat
  | commandMissing _ => 10
  | commandFailure .. => 11
  | config _ => 20
  | delivery _ => 30
  | format _ => 31
  | bus _ => 32
  | file .. => 40
  | fileOther _ => 40
  | io _ => 41
  | ioOther _ => 41
  | archive _ => 42
  | runtime _ => 50
  | hook .. => 51
  | invalidTransition .. => 52

end Error
end OtaAgent
