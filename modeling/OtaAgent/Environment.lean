import OtaAgent.Path

set_option autoImplicit false

namespace OtaAgent

abbrev Environment := List (String × String)

namespace Environment

/-- The value of a variable. Variables are kept as texts with `=` between name and value, and the
first text counts that begins with `name` and a `=`; so a name may reach into a value. -/
def get? (env : Environment) (name : String) : Option String :=
  let start := name.toList ++ ['=']
  env.findSome? fun (key, value) =>
    let text := key.toList ++ '=' :: value.toList
    if name = "" then none
    else if start.isPrefixOf text then some (String.ofList (text.drop start.length))
    else none

/-- The home directory; a variable that is empty counts as absent. -/
def home (env : Environment) : Path :=
  match env.get? "HOME" with
  | some dir => if dir = "" then ⟨"/root"⟩ else ⟨dir⟩
  | none => ⟨"/root"⟩

/-- The directory that `var` names, if that is absolute, and else the one in the home directory. -/
def userDir (env : Environment) (var inHome : String) : Path :=
  match env.get? var with
  | some dir => if (Path.mk dir).isAbsolute then ⟨dir⟩ else env.home.join inHome
  | none => env.home.join inHome

def stateDir (env : Environment) : Path := env.userDir "XDG_STATE_HOME" ".local/state"

def configDir (env : Environment) : Path := env.userDir "XDG_CONFIG_HOME" ".config"

end Environment
end OtaAgent
