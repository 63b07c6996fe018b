import Syndication.Text.Ascii

/-!
# Secret — values that are looked up by name

Signing keys and hook addresses are not part of the configuration. They are looked up by name when
they are needed, in a fixed list or in variables of the environment.

## Contents
* `variableName`            — the variable of a secret
* `SecretStore`, `lookup?`  — the two places
-/

namespace Syndication

/-- A character as it stands in the name of a variable. -/
def variableChar (c : Char) : Char := if c.isAlphanum then c.toUpper else '_'

/-- The variable that holds a secret: the beginning that all have, then the name in upper case with
`_` for what is neither letter nor digit. -/
def variableName (start name : String) : String := start ++ String.ofList (name.toList.map variableChar)

/-- Where secrets are kept. -/
inductive SecretStore where
  /-- A list of names and values; of two values under one name the later one counts. -/
  | fixed (entries : List (String × String))
  /-- Variables whose names begin with `start`; an empty value is as good as none. -/
  | environment (start : String) (entries : List (String × String))
  deriving Repr

/-- The last value under a name. -/
def lastValue? (name : String) (entries : List (String × String)) : Option String :=
  (entries.reverse.find? (·.1 = name)).map (·.2)

/-- The value of a secret. -/
def SecretStore.lookup? : SecretStore → String → Option String
  | .fixed entries, name => lastValue? name entries
  | .environment start entries, name =>
    (lastValue? (variableName start name) entries).filter (fun v => !v.isEmpty)

end Syndication
