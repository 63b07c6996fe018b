import Syndication.Secret

/-!
# Config.Location — where the configuration file is

A variable of the environment may name the file. Otherwise it is in the user's directory for
configuration files, which a second variable may move to another absolute path.

## Contents
* `Environment`, `home?`
* `expandHome`          — a leading tilde
* `Config.path?`
-/

namespace Syndication

/-- Variables, and the home directory that the system knows for the user. -/
structure Environment where
  entries : List (String × String) := []
  userHome : Option String := none
  deriving Repr

namespace Environment

/-- The value of a variable. -/
def get? (env : Environment) (name : String) : Option String := lastValue? name env.entries

/-- The home directory: that of the variable, unless it is empty or missing. -/
def home? (env : Environment) : Option String :=
  match (env.get? "HOME").filter (!·.isEmpty) with
  | some home => some home
  | none => env.userHome

end Environment

/-- A path below a directory. -/
def below (directory name : String) : String :=
  if directory.isEmpty || directory.toList.getLast? == some '/' then directory ++ name
  else directory ++ "/" ++ name

/-- A path with a leading tilde, alone or before a slash, replaced by the home directory. -/
def expandHome (home : Option String) (path : String) : String :=
  match path.toList, home with
  | ['~'], some h => h
  | '~' :: '/' :: rest, some h => h ++ "/" ++ String.ofList rest
  | _, _ => path

/-- The user's directory for configuration files. -/
def Environment.configDirectory? (env : Environment) : Option String :=
  match (env.get? "XDG_CONFIG_HOME").filter (Text.startsWith · "/") with
  | some directory => some directory
  | none => env.home?.map (below · ".config")

/-- The path of the configuration file, if the system has a place for it. -/
def Config.path? (env : Environment) : Option String :=
  match env.get? "CROSSPOST_CONFIG" with
  | some path => some (expandHome env.home? path)
  | none => env.configDirectory?.map fun d => below (below d "crosspost") "config.toml"

end Syndication
