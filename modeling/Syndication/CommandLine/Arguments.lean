import Syndication.Text.Ascii

/-!
# CommandLine.Arguments — taking command lines apart

A command has options and either operands or subcommands. Options begin with dashes and stand
anywhere before a lone `--`, after which every argument is an operand. Some options are known to the
subcommands too; of two values the one that is given deeper counts, but one level may not give an
option twice. Arguments are taken from left to right, and the first one that does not fit decides.

## Contents
* `OptionSpec`, `Command`
* `Progress`, `takeArgument`     — one argument
* `Arguments`, `Arguments.parse`
-/

namespace Syndication.CommandLine

/-! ## Commands -/

/-- An option. One with a value must find it acceptable. -/
structure OptionSpec where
  name : String
  short : Option Char := none
  takesValue : Bool := true
  isRequired : Bool := false
  accepts : String → Bool := fun _ => true

/-- A command: a group of commands, or one with so many operands. -/
inductive Command where
  | group (options : List OptionSpec) (children : List (String × Command))
  | leaf (options : List OptionSpec) (operands : Nat)

def Command.options : Command → List OptionSpec
  | .group options _ => options
  | .leaf options _ => options

/-- Why an argument list is not taken as a command. -/
inductive Halt where
  /-- It does not fit. -/
  | refused
  /-- The version was asked for. -/
  | version
  /-- The usage was asked for. -/
  | help
  deriving DecidableEq, Repr

/-! ## One argument -/

/-- What has been taken so far. -/
structure Progress where
  command : Command
  path : List String := []
  /-- Options of the levels above, as names and values. -/
  outer : List (String × String) := []
  /-- Options of this level. -/
  given : List (String × String) := []
  operands : List String := []
  /-- An option that waits for its value. -/
  pending : Option OptionSpec := none
  /-- A lone `--` has been passed. -/
  operandsOnly : Bool := false

namespace Progress

/-- Options that every level knows. -/
def known (inherited : List OptionSpec) (p : Progress) : List OptionSpec :=
  p.command.options ++ inherited

/-- An option given at this level for the first time, with a value that is accepted. -/
def give (p : Progress) (o : OptionSpec) (value : String) : Except Halt Progress :=
  if p.given.any (·.1 = o.name) then .error .refused
  else if !o.accepts value then .error .refused
  else .ok { p with given := p.given ++ [(o.name, value)], pending := none }

/-- An operand, if there is room for it. -/
def giveOperand (p : Progress) (value : String) : Except Halt Progress :=
  match p.command with
  | .leaf _ n =>
    if p.operands.length < n then .ok { p with operands := p.operands ++ [value] }
    else .error .refused
  | .group _ _ => .error .refused

/-- The level below. -/
def descend (p : Progress) (name : String) (c : Command) : Progress :=
  { command := c, path := p.path ++ [name], outer := p.outer ++ p.given }

/-- The version may be asked for at the top only. -/
def askVersion (p : Progress) : Halt := if p.path.isEmpty then .version else .refused

/-- A long option, perhaps with a value behind an equals sign. -/
def takeLong (inherited : List OptionSpec) (p : Progress) (body : List Char) :
    Except Halt Progress :=
  let name := String.ofList (body.takeWhile (· != '='))
  let value? := match body.dropWhile (· != '=') with
    | '=' :: value => some (String.ofList value)
    | _ => none
  match (p.known inherited).find? (·.name = name) with
  | some o =>
    if o.takesValue then
      match value? with
      | some value => p.give o value
      | none => if p.given.any (·.1 = o.name) then .error .refused else .ok { p with pending := some o }
    else match value? with
      | some _ => .error .refused
      | none => p.give o ""
  | none =>
    if value?.isSome then .error .refused
    else if name = "help" then .error .help
    else if name = "version" then .error p.askVersion
    else .error .refused

/-- Short options that share one dash. None of them takes a value. -/
def takeShort (inherited : List OptionSpec) (p : Progress) : List Char → Except Halt Progress
  | [] => .ok p
  | c :: rest =>
    match (p.known inherited).find? (·.short = some c) with
    | some o =>
      match p.give o "" with
      | .ok p => takeShort inherited p rest
      | .error halt => .error halt
    | none =>
      if c = 'h' then .error .help
      else if c = 'V' then .error p.askVersion
      else .error .refused

/-- An argument that is no option: a subcommand, or an operand. -/
def takePlain (p : Progress) (arg : String) : Except Halt Progress :=
  match p.command with
  | .group _ children =>
    match children.lookup arg with
    | some c => .ok (p.descend arg c)
    | none => if arg = "help" then .error .help else .error .refused
  | .leaf _ _ => p.giveOperand arg

/-- One more argument. An option that waits for its value takes one that does not look like an
option. -/
def takeArgument (inherited : List OptionSpec) (p : Progress) (arg : String) :
    Except Halt Progress :=
  if p.operandsOnly then p.giveOperand arg
  else match arg.toList, p.pending with
    | '-' :: _ :: _, some _ => .error .refused
    | _, some o => p.give o arg
    | ['-', '-'], none => .ok { p with operandsOnly := true }
    | '-' :: '-' :: body, none => p.takeLong inherited body
    | '-' :: c :: cs, none => p.takeShort inherited (c :: cs)
    | _, none => p.takePlain arg

end Progress

/-! ## Argument lists -/

/-- What a command line asks for: the subcommands, the values of options and the operands. -/
structure Arguments where
  path : List String
  options : List (String × String)
  operands : List String
  deriving DecidableEq, Repr

namespace Arguments

/-- The arguments at the end of a command line: nothing waits, and nothing that is needed is missing. -/
def ofProgress (p : Progress) : Except Halt Arguments :=
  match p.command with
  | .group _ _ => .error .refused
  | .leaf options n =>
    if p.pending.isSome then .error .refused
    else if p.operands.length < n then .error .refused
    else if options.any fun o => o.isRequired && !(p.given.any (·.1 = o.name)) then .error .refused
    else .ok ⟨p.path, p.outer ++ p.given, p.operands⟩

/-- The arguments of a command line. The options in `inherited` are known at every level. -/
def parse (inherited : List OptionSpec) (command : Command) (args : List String) :
    Except Halt Arguments := do
  let p ← args.foldlM (Progress.takeArgument inherited) { command := command }
  ofProgress p

/-- The value of an option: the one that was given deepest. -/
def value? (a : Arguments) (name : String) : Option String := a.options.reverse.lookup name

/-- An option without a value was given. -/
def has (a : Arguments) (name : String) : Bool := (a.value? name).isSome

/-- The operand at a position. -/
def operand (a : Arguments) (i : Nat) : String := a.operands.getD i ""

end Arguments

/-! ## Values -/

/-- A natural number below `bound`; it may have a plus sign. -/
def natural? (bound : Nat) (s : String) : Option Nat :=
  let digits := match s.toList with
    | '+' :: rest => rest
    | cs => cs
  (Text.natural? (String.ofList digits)).filter (· < bound)

/-- A natural number below `bound` that is read as a signed one, so that zero may be negative. -/
def signedNatural? (bound : Nat) (s : String) : Option Nat :=
  match s.toList with
  | '-' :: rest => (Text.natural? (String.ofList rest)).filter (· = 0)
  | _ => natural? bound s

end Syndication.CommandLine
