import Syndication.CommandLine.Program
import Syndication.Maintenance
import Syndication.Time.Phrase
import Syndication.Trigger.Registration
import Syndication.Word

/-!
# CommandLine.Administration — keys, triggers, templates, jobs and maintenance by hand

The administration program shows and changes what is in the database. It prints for people or, if it
is asked to, as JSON. What does not exist is an error.

## Contents
* `arguments`, `Request`, `Request.of`    — what can be asked for
* `keyLine`, `triggerLine`, `jobLine`, `jobDetail` — lines for people
* `answer`                                — doing it
* `run`                                   — the program
-/

namespace Syndication.CommandLine.Administration

/-! ## Arguments -/

/-- What is printed. -/
inductive Format where
  | text
  | json
  deriving DecidableEq, Repr

/-- The format of a name. -/
def Format.ofName? : String → Option Format
  | "text" => some .text
  | "json" => some .json
  | _ => none

/-- Options that every level knows. -/
def inherited : List OptionSpec :=
  [{ name := "format", accepts := fun v => (Format.ofName? v).isSome },
    { name := "verbose", short := some 'v', takesValue := false }]

/-- An option that must be given. -/
def required (name : String) : OptionSpec := { name := name, isRequired := true }

/-- The greatest number of hours between two posts of a trigger is below this. -/
def maxHours : Nat := Word.range32

/-- The greatest number of jobs to list is below this. -/
def maxLimit : Nat := Word.range64

def isOk {ε α : Type} : Except ε α → Bool
  | .ok _ => true
  | .error _ => false

/-- The commands and their options and operands. -/
def arguments : Command :=
  .group []
    [("keys", .group []
        [("generate", .leaf [] 1), ("list", .leaf [{ name := "user" }] 0), ("delete", .leaf [] 2)]),
      ("triggers", .group []
        [("add", .leaf [required "account-type", required "account-id", required "template",
            required "target",
            { name := "frequency", accepts := fun v => (signedNatural? maxHours v).isSome }] 1),
          ("list", .leaf [] 1), ("remove", .leaf [] 2)]),
      ("templates", .group []
        [("set", .leaf [{ name := "title" }, required "body"] 2), ("show", .leaf [] 2)]),
      ("jobs", .group []
        [("list", .leaf [{ name := "user" },
            { name := "status", accepts := fun v => isOk (JobStatus.ofName? v) },
            { name := "limit", accepts := fun v => (natural? maxLimit v).isSome }] 0),
          ("show", .leaf [] 1)]),
      ("gc", .leaf [{ name := "retention", accepts := fun v => (Span.ofPhrase? v).isSome }] 0)]

/-- What the program is asked for. -/
inductive Request where
  | generateKey (userId : String)
  | listKeys (userId : Option String)
  | deleteKey (userId keyId : String)
  | addTrigger (trigger : NewTrigger)
  | listTriggers (userId : String)
  | removeTrigger (userId triggerId : String)
  | setTemplate (userId templateId title body : String)
  | showTemplate (userId templateId : String)
  | listJobs (userId : Option String) (status : Option JobStatus) (limit : Nat)
  | showJob (jobId : String)
  | collect (retention : Option Span)
  deriving DecidableEq, Repr

namespace Request

/-- How many jobs are listed if nothing else is asked for. -/
def defaultLimit : Nat := 20

/-- The trigger that arguments describe. -/
def newTrigger (a : Arguments) : NewTrigger where
  userId := a.operand 0
  accountType := (a.value? "account-type").getD ""
  accountId := (a.value? "account-id").getD ""
  templateId := (a.value? "template").getD ""
  target := (a.value? "target").getD ""
  gapHours := ((a.value? "frequency").bind (signedNatural? maxHours)).getD 0

/-- The status that is asked for. -/
def status? (a : Arguments) : Option JobStatus :=
  match (a.value? "status").map JobStatus.ofName? with
  | some (.ok s) => some s
  | _ => none

/-- What arguments ask for. -/
def of (a : Arguments) : Request :=
  match a.path with
  | ["keys", "generate"] => .generateKey (a.operand 0)
  | ["keys", "list"] => .listKeys (a.value? "user")
  | ["keys", "delete"] => .deleteKey (a.operand 0) (a.operand 1)
  | ["triggers", "add"] => .addTrigger (newTrigger a)
  | ["triggers", "list"] => .listTriggers (a.operand 0)
  | ["triggers", "remove"] => .removeTrigger (a.operand 0) (a.operand 1)
  | ["templates", "set"] =>
    .setTemplate (a.operand 0) (a.operand 1) ((a.value? "title").getD "") ((a.value? "body").getD "")
  | ["templates", "show"] => .showTemplate (a.operand 0) (a.operand 1)
  | ["jobs", "list"] =>
    .listJobs (a.value? "user") (status? a)
      (((a.value? "limit").bind (natural? maxLimit)).getD defaultLimit)
  | ["jobs", "show"] => .showJob (a.operand 0)
  | _ => .collect ((a.value? "retention").bind Span.ofPhrase?)

end Request

/-! ## Lines for people -/

/-- A key without its token. -/
def keyLine (k : ApiKey) : String :=
  k.userId ++ "  " ++ k.keyId ++ "  created " ++ Instant.clockText k.createdAt

/-- A trigger with its last notification. -/
def triggerLine (t : Trigger) : String :=
  let last := (t.lastNotifiedAt.map Instant.clockText).getD "never"
  t.triggerId ++ "  " ++ t.accountType ++ ":" ++ t.accountId ++ " -> " ++ t.target ++ " via '" ++
    t.templateId ++ "' every " ++ toString t.gapHours ++ "h (last " ++ last ++ ")"

/-- A job in one line, with status and target in columns. -/
def jobLine (j : JobRecord) : String :=
  j.jobId ++ "  " ++ Text.padRight 11 j.status.name ++ " " ++ Text.padRight 12 j.target ++ " user=" ++
    j.userId ++ " attempts=" ++ toString j.shownAttempts ++ " " ++ Instant.clockText j.createdAt

/-- A line of a record, if there is something to say. -/
def detail? (label : String) : Option String → List String
  | some text => [label ++ text]
  | none => []

/-- A job in full. -/
def jobDetail (j : JobRecord) : List String :=
  ["job:       " ++ j.jobId, "root post: " ++ j.rootId, "user:      " ++ j.userId,
    "target:    " ++ j.target, "status:    " ++ j.status.name,
    "attempts:  " ++ toString j.shownAttempts] ++
    detail? "post at:   " (j.postAt.map Instant.clockText) ++
    detail? "posted as: " j.platformPostId ++ detail? "error:     " j.lastError ++
    j.failedParts.map (fun p => "  failed " ++ p.part ++ ": " ++ p.error) ++
    ["created:   " ++ Instant.clockText j.createdAt, "updated:   " ++ Instant.clockText j.updatedAt]

/-- A list in lines, or a word if it is empty. -/
def listLines {α : Type} (none : String) (line : α → String) (xs : List α) : List String :=
  if xs.isEmpty then [none] else xs.map line

/-! ## Answers -/

/-- The form that was asked for. -/
def printed (format : Format) (document : Json) (lines : List String) : Output :=
  match format with
  | .json => .lines [document.pretty]
  | .text => .lines lines

/-- A word about what was done. -/
def done (format : Format) (action id : String) : Output :=
  printed format (.record [("action", .text action), ("id", .text id)]) [action ++ " " ++ id]

/-- The error about something that does not exist. -/
def missing (what id userId : String) : Error :=
  .notFound (what ++ " '" ++ id ++ "' for user '" ++ userId ++ "'")

/-- The lines about a key that has just been made. -/
def newKey (format : Format) (k : GeneratedKey) : Output :=
  match format with
  | .json => .lines [k.toJson.pretty]
  | .text =>
    { Output.lines ["user:   " ++ k.userId, "key id: " ++ k.keyId, "token:  " ++ k.token] with
      err := "Store the token now; it cannot be shown again.\n" }

/-- The lines about a maintenance pass. -/
def maintenanceLines (r : MaintenanceReport) : List String :=
  ["collected " ++ toString r.bundles.collected ++ " bundle(s), " ++ toString r.bundles.locked ++
      " still locked",
    "pruned " ++ toString r.ledgerRows ++ " webhook record(s) and " ++ toString r.rateWindows ++
      " rate window(s)"]

/-- Does what is asked for. -/
def answer (format : Format) : Request → Effect Service Output
  | .generateKey userId => do return newKey format (← Service.generateKey userId)
  | .listKeys userId => do
    let keys := (← get).keys.list userId
    return printed format (.array (keys.map ApiKey.toJson)) (listLines "No API keys." keyLine keys)
  | .deleteKey userId keyId => do
    if ← Service.changeKeys (·.delete userId keyId) then return done format "deleted" keyId
    else throw (missing "api key" keyId userId)
  | .addTrigger n => do
    let t ← Registration.register n
    return printed format t.toJson [t.triggerId]
  | .listTriggers userId => do
    let ts := (← get).triggers.ofUser userId
    return printed format (.array (ts.map Trigger.toJson)) (listLines "No triggers." triggerLine ts)
  | .removeTrigger userId triggerId => do
    if ← Registration.remove userId triggerId then return done format "removed" triggerId
    else throw (missing "trigger" triggerId userId)
  | .setTemplate userId templateId title body => do
    Registration.setTemplate userId templateId title body
    return done format "saved" templateId
  | .showTemplate userId templateId => do
    match (← get).triggers.template? userId templateId with
    | some t => return printed format t.toJson ["title: " ++ t.title, "body:  " ++ t.body]
    | none => throw (missing "template" templateId userId)
  | .listJobs userId status limit => do
    let jobs := (← get).jobs.list userId status limit
    return printed format (.array (jobs.map JobRecord.toJson)) (listLines "No jobs." jobLine jobs)
  | .showJob jobId => do
    match (← get).jobs.get? jobId with
    | some j => return printed format j.toJson (jobDetail j)
    | none => throw (.notFound ("job '" ++ jobId ++ "'"))
  | .collect retention => do
    let r ← match retention with
      | some span => Maintenance.maintain span
      | none => Maintenance.maintainAsConfigured
    return printed format r.toJson (maintenanceLines r)

/-! ## The program -/

def name : String := "crosspost-admin"

/-- How the program is used, in a line. -/
def usage : String :=
  "Usage: " ++ name ++ " [--format text|json] [-v] keys|triggers|templates|jobs|gc ..."

/-- Runs the program. If its arguments do not fit, nothing is opened. -/
def run (args : List String) (setting : Setting) : Ending × Option Service :=
  match Arguments.parse inherited arguments args with
  | .error halt => (halt.ending name usage, none)
  | .ok a =>
    match setting.start with
    | .error e => (.ofError e, none)
    | .ok s =>
      let format := ((a.value? "format").bind Format.ofName?).getD .text
      let (ending, s) := finish (answer format (.of a)) s
      (ending, some s)

end Syndication.CommandLine.Administration
