import Std.Time.DateTime.Timestamp
import Syndication.Archive
import Syndication.CommandLine.Administration
import Syndication.CommandLine.Daemon
import Syndication.CommandLine.Server
import Syndication.Config.Location

/-!
# Main — the three programs

The first argument names the program. The configuration says where the two documents of the archive
are; they are read before a program starts, and written when it has worked on them. Nothing here decides
what a program does. There are no sockets: an address cannot be listened on, and no hook answers.

## Contents
* `environment`, `readFile?`, `writeFile` — the world outside
* `openService`, `keep`                   — the archive
* `start`, `main`
-/

namespace Syndication.CommandLine

/-! ## The world outside -/

/-- The variables that say where the configuration file is. -/
def locationVariables : List String := ["CROSSPOST_CONFIG", "XDG_CONFIG_HOME", "HOME"]

/-- The variables that may hold secrets of the configuration. -/
def secretVariables (c : Config) : List String :=
  (c.webhooks.signingSecret :: c.platforms.filterMap (·.urlSecret)).map (variableName c.secretStart)

/-- Variables with their values, those that are set. -/
def environment (names : List String) : IO Environment := do
  let values ← names.mapM fun name => return (name, ← IO.getEnv name)
  return { entries := values.filterMap fun (name, value?) => value?.map ((name, ·)) }

/-- The octets of a file; `none` if there is none. -/
def readFile? (path : String) : IO (Option Bytes) := do
  try
    return some (← IO.FS.readBinFile path).toList
  catch
    | .noFileOrDirectory .. => return none
    | e => throw e

/-- Puts octets in place of a file, all of them or none. -/
def writeFile (path : String) (data : Bytes) : IO Unit := do
  let directory := Store.Tree.directoryPart path
  if !directory.isEmpty then IO.FS.createDirAll directory
  IO.FS.writeBinFile (path ++ ".new") ⟨data.toArray⟩
  IO.FS.rename (path ++ ".new") path

/-- A random number of so many octets. -/
def randomBelow (octets : Nat) : IO Nat := do
  let drawn ← IO.getRandomBytes (.ofNat octets)
  return drawn.toList.foldl (fun n b => 256 * n + b.toNat) 0

/-! ## The archive -/

/-- The file of the tables. -/
def tablesFile (env : Environment) (c : Config) : String := expandHome env.home? c.databasePath

/-- The file of the objects. -/
def objectsFile (env : Environment) (c : Config) : String :=
  below (expandHome env.home? c.storageRoot) "objects.json"

/-- The document in a file, read as what it should hold; `empty` if there is no file. -/
def document {α : Type} (path : String) (failure : String → Error) (empty : α)
    (read? : Json → Option α) : IO (Except Error α) := do
  try
    match ← readFile? path with
    | none => return .ok empty
    | some data =>
      match (Json.ofBytes? data).bind read? with
      | some a => return .ok a
      | none => return .error (failure (path ++ " is no archive"))
  catch e => return .error (failure e.toString)

/-- The service of a configuration as the archive keeps it. -/
def openService (env : Environment) (c : Config) : IO (Except Error Service) := do
  let now ← Std.Time.Timestamp.now
  let secrets ← environment (secretVariables c)
  let tree ← document (objectsFile env c) (fun m => .storage (.io m)) {} Archive.ofObjects?
  let fresh : Service := {
    config := c
    settings := c.queue.settings
    secrets := .environment c.secretStart secrets.entries
    now := now.toMillisecondsSinceUnixEpoch.val
    issuer := ⟨← randomBelow 16, ← randomBelow 32, 0, 0⟩
    store := .onFiles }
  match tree with
  | .error e => return .error e
  | .ok tree =>
    let s := { fresh with store := { fresh.store with objects := .files tree } }
    document (tablesFile env c) (fun m => .database (.operation m)) s (Archive.withTables? s)

/-- Writes the archive. -/
def keep (env : Environment) (s : Service) : IO Unit := do
  let write := fun path (j : Json) => writeFile path (Utf8.encode j.compact)
  match s.store.objects with
  | .files tree => write (objectsFile env s.config) (Archive.objects tree)
  | .memory _ => pure ()
  write (tablesFile env s.config) (Archive.tables s)

/-! ## Programs -/

/-- The configuration file. -/
def configFile (env : Environment) : IO (Except Error (Option Bytes)) := do
  match Config.path? env with
  | none => return .error (.config (.missingField "config directory"))
  | some path =>
    try
      return .ok (← readFile? path)
    catch e => return .error (.config (.unreadable e.toString))

/-- A program as far as it goes without a rest: its end, the service that it leaves, and how long it
rests. -/
def runFor (elapsed : Nat) (program : String) (args : List String) (setting : Setting) :
    Ending × Option Service × Option Span :=
  if program = Daemon.name then
    let (ending, s) := Daemon.run args (fun _ => .unreachable) [elapsed] setting
    (ending, s, s.bind fun s => Daemon.rest? args s.config)
  else if program = Server.name then
    let (ending, _, s) := Server.run args (fun _ => .error "no sockets") setting
    (ending, s, none)
  else if program = Administration.name then
    let (ending, s) := Administration.run args setting
    (ending, s, none)
  else (.refused, none, none)

/-- The exit code of a program that has no clock to read. -/
def noClockCode : UInt32 := 101

/-- Runs a program to its end, turn after turn. None is run by a clock that cannot be read. -/
partial def start (lastSweep : Int) (program : String) (args : List String) : IO UInt32 := do
  let env ← environment locationVariables
  let file ← configFile env
  let opened ← match file.bind Config.orDefault? with
    | .ok c => openService env c
    | .error e => pure (.error e)
  if let .ok s := opened then
    if !s.hasClock then
      IO.eprintln "error: the clock shows no time"
      return noClockCode
  let elapsed := match opened with
    | .ok s => (s.nowSecs - lastSweep).toNat
    | .error _ => 0
  let (ending, after, rest?) := runFor elapsed program args ⟨file, fun _ => opened⟩
  if let some s := after then keep env s
  match ending with
  | .refused => IO.eprintln "error: the arguments do not fit"
  | .exit _ o =>
    IO.print o.out
    IO.eprint o.err
  match after, rest? with
  | some s, some rest =>
    IO.sleep (.ofNat (min rest.millis 2147483648))
    let swept := Daemon.isSweepDue s.config elapsed
    start (if swept then s.nowSecs else lastSweep) program args
  | _, _ => return .ofNat ending.code

end Syndication.CommandLine

/-- The program that the first argument names, run with the others. -/
def main : List String → IO UInt32
  | program :: args => do
    let now ← Std.Time.Timestamp.now
    Syndication.CommandLine.start (now.toMillisecondsSinceUnixEpoch.val.fdiv 1000) program args
  | [] => do
    IO.eprintln "usage: crosspost-admin|crosspost-worker|crosspost-api ..."
    return 2
