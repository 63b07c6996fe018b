import Syndication.CommandLine.Arguments
import Syndication.Config.Reader
import Syndication.Service

/-!
# CommandLine.Program — how programs start and end

Every program reads its arguments, then its configuration, then opens the service. What it does after
that is a step of the service with a text to print. A failure on the way ends the program with the
wording of the failure and the exit code that belongs to it.

## Contents
* `Output`, `Ending`
* `Setting`, `Setting.start`     — the world that a program is started in
* `started`                      — arguments taken, or the program over
-/

namespace Syndication.CommandLine

/-- What a program prints. -/
structure Output where
  out : String := ""
  err : String := ""
  deriving DecidableEq, Repr, Inhabited

/-- Text for standard output, a line each. -/
def Output.lines (ls : List String) : Output := { out := String.join (ls.map (· ++ "\n")) }

/-- How a program ends. -/
inductive Ending where
  /-- Its arguments did not fit. -/
  | refused
  | exit (code : Nat) (output : Output)
  deriving DecidableEq, Repr

namespace Ending

/-- The exit code of a program whose arguments did not fit. -/
def refusedCode : Nat := 2

/-- The exit code. -/
def code : Ending → Nat
  | .refused => refusedCode
  | .exit code _ => code

/-- A program that has done what it was asked for. -/
def success (output : Output) : Ending := .exit 0 output

/-- A program that has failed; a failure that has no exit code of its own ends with 1. -/
def failure (code : Nat) (wording : String) : Ending :=
  .exit code { err := "Error: " ++ wording ++ "\n" }

/-- A program that has failed with an error of the service. -/
def ofError (e : Error) : Ending := failure e.exitCode e.chain

end Ending

/-- The world that a program is started in: its configuration file, if there is one and it can be read,
and the service that a configuration leads to. -/
structure Setting where
  configFile : Except Error (Option Bytes)
  connect : Config → Except Error Service

/-- The service of the configuration. -/
def Setting.start (s : Setting) : Except Error Service := do
  let c ← Config.orDefault? (← s.configFile)
  s.connect c

/-- The version of all programs. -/
def programVersion : String := "0.1.0"

/-- What a program with this name is over with, if its arguments ask for nothing else. -/
def Halt.ending (program usage : String) : Halt → Ending
  | .refused => .refused
  | .version => .success (.lines [program ++ " " ++ programVersion])
  | .help => .success (.lines [usage])

/-- Runs a step of a service; what it prints, or its failure, is how the program ends. -/
def finish (step : Effect Service Output) (s : Service) : Ending × Service :=
  match step.exec s with
  | (.ok output, s) => (.success output, s)
  | (.error e, s) => (.ofError e, s)

end Syndication.CommandLine
