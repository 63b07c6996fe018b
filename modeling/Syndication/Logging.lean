import Syndication.Text.Ascii
import Syndication.Text.Blank

/-!
# Logging — the form and the level of log records

What the environment says about log records: one of three forms, and a filter directive. A form that
nobody knows means plain text, since a program should not refuse to start over its log.

## Contents
* `LogFormat`, `LogFormat.ofText?`
* `LogSetup`, `LogSetup.ofEnvironment`, `directive`
-/

namespace Syndication

/-- The form of log records. -/
inductive LogFormat where
  | text
  | json
  | pretty
  deriving DecidableEq, Repr

namespace LogFormat

def name : LogFormat → String
  | .text => "text"
  | .json => "json"
  | .pretty => "pretty"

/-- The form that a text names, in any letter case and with blanks around it. The three names hold no
letter that a character outside ASCII has as its lower case. -/
def ofText? (s : String) : Except String LogFormat :=
  let word := Text.lower (Text.trim s)
  if word = "text" then .ok .text
  else if word = "json" then .ok .json
  else if word = "pretty" then .ok .pretty
  else .error ("Invalid log format: '" ++ s ++ "'. Valid options: text, json, pretty")

end LogFormat

/-- What is logged, and how. -/
structure LogSetup where
  format : LogFormat
  level : String
  verbose : Bool
  deriving Repr

namespace LogSetup

/-- The setup that the two variables of the environment and the flag of a command line give. -/
def ofEnvironment (format level : Option String) (verbose : Bool) : LogSetup where
  format := match format.map LogFormat.ofText? with
    | some (.ok f) => f
    | _ => .text
  level := level.getD "info"
  verbose := verbose

/-- The filter directive. -/
def directive (s : LogSetup) : String := if s.verbose then "debug" else s.level

end LogSetup
end Syndication
