import OtaAgent.Flags

set_option autoImplicit false

namespace OtaAgent.Flags

inductive Key
  | cert
  | handler
  | host
  | port
  | user
  | identity
  | passwordEnv
  | cap
  | temp
  | mode
  | rollbackVersion
  | download
  | config
  | log
  | versionDir
  | backupDir
  deriving DecidableEq, Repr

inductive Flag
  | help
  | version
  | noDelta
  | debug
  | key (k : Key)
  deriving DecidableEq, Repr

/-- Why a command line is not served; the first two ask for a text instead. -/
inductive Refusal
  | help
  | version
  | unknownArgument
  | invalidValue
  | invalidPort
  | repeated
  | unwantedValue
  deriving DecidableEq, Repr

def Refusal.exitCode : Refusal → Nat
  | help => 0
  | version => 0
  | _ => 2

def named : List (String × Flag) := [
  ("help", .help), ("version", .version), ("delta", .noDelta), ("debug", .debug),
  ("cert", .key .cert), ("type", .key .handler), ("host", .key .host), ("port", .key .port),
  ("user", .key .user), ("identity", .key .identity), ("password-env", .key .passwordEnv),
  ("cap", .key .cap), ("temp", .key .temp), ("mode", .key .mode),
  ("rver", .key .rollbackVersion), ("download", .key .download), ("config", .key .config),
  ("log", .key .log), ("version-dir", .key .versionDir), ("backup-dir", .key .backupDir)]

/-- The letters; not every flag has one. -/
def lettered : List (Char × Flag) := [
  ('h', .help), ('V', .version), ('D', .noDelta), ('d', .debug), ('k', .key .cert),
  ('t', .key .handler), ('i', .key .host), ('p', .key .port), ('u', .key .user),
  ('a', .key .cap), ('c', .key .temp), ('M', .key .mode), ('r', .key .rollbackVersion)]

def path? (value : String) : Except Refusal Path :=
  if value = "" then .error .invalidValue else .ok ⟨value⟩

def port? (value : String) : Except Refusal Nat :=
  match Text.signed? 10 value.toList with
  | some (.ofNat n) => if n ≤ Endpoint.maxPort then .ok n else .error .invalidPort
  | _ => .error .invalidPort

def spelled {α : Type} : Option α → Except Refusal α
  | some a => .ok a
  | none => .error .invalidValue

def once {α : Type} (field : Option α) (value : Except Refusal α) : Except Refusal (Option α) :=
  if field.isSome then .error .repeated else value.map some

def give (f : Flags) (k : Key) (value : String) : Except Refusal Flags := do
  match k with
  | .cert => return { f with cert := ← once f.cert (path? value) }
  | .handler => return { f with handler := ← once f.handler (.ok value) }
  | .host => return { f with host := ← once f.host (.ok value) }
  | .port => return { f with port := ← once f.port (port? value) }
  | .user => return { f with user := ← once f.user (.ok value) }
  | .identity => return { f with identity := ← once f.identity (path? value) }
  | .passwordEnv => return { f with passwordEnv := ← once f.passwordEnv (.ok value) }
  | .cap => return { f with cap := ← once f.cap (.ok value) }
  | .temp => return { f with temp := ← once f.temp (path? value) }
  | .mode => return { f with mode := ← once f.mode (spelled (Mode.ofSpelling? value)) }
  | .rollbackVersion => return { f with rollbackVersion := ← once f.rollbackVersion (.ok value) }
  | .download =>
    return { f with download := ← once f.download (spelled (DownloadStatus.ofSpelling? value)) }
  | .config => return { f with config := ← once f.config (path? value) }
  | .log => return { f with log := ← once f.log (path? value) }
  | .versionDir => return { f with versionDir := ← once f.versionDir (path? value) }
  | .backupDir => return { f with backupDir := ← once f.backupDir (path? value) }

/-- The flags judged so far, and the one that is not, with its value if that has been met. -/
structure Reading where
  flags : Flags
  awaiting : Option (Key × Option String)

namespace Reading

def settled (r : Reading) : Except Refusal Flags :=
  match r.awaiting with
  | none => .ok r.flags
  | some (_, none) => .error .invalidValue
  | some (k, some value) => r.flags.give k value

/-- Meets a flag without a value in the same word. -/
def meet (r : Reading) (flag : Flag) : Except Refusal Reading := do
  let f ← r.settled
  match flag with
  | .help => throw .help
  | .version => throw .version
  | .noDelta => if f.noDelta then throw .repeated else return ⟨{ f with noDelta := true }, none⟩
  | .debug => if f.debug then throw .repeated else return ⟨{ f with debug := true }, none⟩
  | .key k => return ⟨f, some (k, none)⟩

/-- Meets a flag with a value in the same word. -/
def meetWith (r : Reading) (flag : Flag) (value : String) : Except Refusal Reading := do
  match flag with
  | .key k => return ⟨← (← r.settled).give k value, none⟩
  | _ => throw .unwantedValue

/-- Meets a long name, perhaps with `=` and a value after it. -/
def meetNamed (r : Reading) (cs : List Char) : Except Refusal Reading :=
  match named.lookup (String.ofList (cs.takeWhile (· != '='))), cs.dropWhile (· != '=') with
  | none, _ => .error .unknownArgument
  | some flag, [] => r.meet flag
  | some flag, _ :: value => r.meetWith flag (String.ofList value)

/-- Meets letters, of which the first that takes a value has all that follow for it. -/
def meetLetters (r : Reading) : List Char → Except Refusal Reading
  | [] => .ok r
  | c :: cs =>
    match lettered.lookup c, cs with
    | none, _ => .error .unknownArgument
    | some (.key k), '=' :: value => r.meetWith (.key k) (String.ofList value)
    | some (.key k), [] => r.meet (.key k)
    | some (.key k), value => r.meetWith (.key k) (String.ofList value)
    | some flag, cs => do (← r.meet flag).meetLetters cs

def meetWord (r : Reading) (word : String) : Except Refusal Reading :=
  match r.awaiting with
  | some (k, none) => .ok ⟨r.flags, some (k, some word)⟩
  | _ => .error .unknownArgument

/-- Reads on to the end. Nothing may follow the word `--`. -/
def finish (r : Reading) : List String → Except Refusal Flags
  | [] => r.settled
  | word :: words => do
    match word.toList with
    | ['-', '-'] => if words.isEmpty then r.settled else throw .unknownArgument
    | '-' :: '-' :: cs => (← r.meetNamed cs).finish words
    | '-' :: c :: cs => (← r.meetLetters (c :: cs)).finish words
    | _ => (← r.meetWord word).finish words

end Reading

def parse (words : List String) : Except Refusal Flags := Reading.finish ⟨{}, none⟩ words

end OtaAgent.Flags
