/-!
# Error — what can go wrong

Every failure is a cause with the facts it needs; its wording, its exit code and whether trying
again may help are functions of the cause. Wordings nest: a configuration error is announced as one
and then told by its own words, and a command line tells the whole chain.

## Contents
* `ConfigError`, `DatabaseError`, `StorageError`, `PlatformError`, `Error`
* `Error.message`, `Error.chain`  — the wording, alone and with the cause repeated behind it
* `Error.exitCode`, `Error.isTransient`
* `WebhookError`                  — a refused callback
-/

namespace Syndication

/-- A configuration that cannot be used. -/
inductive ConfigError where
  | unreadable (reason : String)
  | malformed (reason : String)
  | missingField (field : String)
  | invalidValue (field reason : String)
  deriving DecidableEq, Repr

/-- A record operation that failed. -/
inductive DatabaseError where
  | operation (reason : String)
  | migration (reason : String)
  | io (reason : String)
  deriving DecidableEq, Repr

/-- An object store operation that failed. -/
inductive StorageError where
  | io (reason : String)
  | invalidKey (key : String)
  deriving DecidableEq, Repr

/-- A delivery that a platform did not take. -/
inductive PlatformError where
  | authentication (detail : String)
  | validation (detail : String)
  | posting (detail : String)
  | network (detail : String)
  | rateLimit (detail : String)
  | notImplemented (detail : String)
  deriving DecidableEq, Repr

/-- Any failure of the service. -/
inductive Error where
  | config (cause : ConfigError)
  | database (cause : DatabaseError)
  | storage (cause : StorageError)
  | platform (cause : PlatformError)
  | serialization (reason : String)
  | unauthorized (detail : String)
  | invalidInput (detail : String)
  | notFound (detail : String)
  | queue (detail : String)
  deriving DecidableEq, Repr

/-! ## Wording -/

def ConfigError.message : ConfigError → String
  | .unreadable reason => "Failed to read config file: " ++ reason
  | .malformed reason => "Failed to parse config: " ++ reason
  | .missingField field => "Missing required field: " ++ field
  | .invalidValue field reason => "Invalid value for " ++ field ++ ": " ++ reason

def DatabaseError.message : DatabaseError → String
  | .operation reason => "Database operation failed: " ++ reason
  | .migration reason => "Migration failed: " ++ reason
  | .io reason => "IO error: " ++ reason

def StorageError.message : StorageError → String
  | .io reason => "IO error: " ++ reason
  | .invalidKey key => "Invalid object key: " ++ key

def PlatformError.message : PlatformError → String
  | .authentication detail => "Authentication failed: " ++ detail
  | .validation detail => "Content validation failed: " ++ detail
  | .posting detail => "Posting failed: " ++ detail
  | .network detail => "Network error: " ++ detail
  | .rateLimit detail => "Rate limit exceeded: " ++ detail
  | .notImplemented detail => "Not implemented: " ++ detail

namespace Error

/-- The wording of the cause inside an error, where it has one of its own. -/
def causeMessage? : Error → Option String
  | .config c => some c.message
  | .database c => some c.message
  | .storage c => some c.message
  | .platform c => some c.message
  | .serialization reason => some reason
  | _ => none

/-- The wording of an error. -/
def message : Error → String
  | .config c => "Configuration error: " ++ c.message
  | .database c => "Database error: " ++ c.message
  | .storage c => "Storage error: " ++ c.message
  | .platform c => "Platform error: " ++ c.message
  | .serialization reason => "Serialization error: " ++ reason
  | .unauthorized detail => "Unauthorized: " ++ detail
  | .invalidInput detail => "Invalid input: " ++ detail
  | .notFound detail => "Not found: " ++ detail
  | .queue detail => "Queue error: " ++ detail

/-- The wording of an error, then that of its cause. -/
def chain (e : Error) : String :=
  match e.causeMessage? with
  | some cause => e.message ++ ": " ++ cause
  | none => e.message

/-- The exit code of a command that ends with this error: 3 for a wrong request, 2 for a wrong
setup or credential, 1 for the rest. -/
def exitCode : Error → Nat
  | .invalidInput _ | .notFound _ => 3
  | .unauthorized _ | .config _ | .platform (.authentication _) => 2
  | _ => 1

end Error

/-- A platform may take the delivery later: the network failed or the budget was spent. -/
def PlatformError.isTransient : PlatformError → Bool
  | .network _ | .rateLimit _ => true
  | _ => false

/-- The same operation may succeed later. -/
def Error.isTransient : Error → Bool
  | .platform c => c.isTransient
  | _ => false

/-! ## Callbacks -/

/-- A callback that is refused, or that fails inside the service. -/
inductive WebhookError where
  | unauthorized (detail : String)
  | badRequest (detail : String)
  | unknownProvider (provider : String)
  | inside (cause : Error)
  deriving DecidableEq, Repr

def WebhookError.message : WebhookError → String
  | .unauthorized detail => "unauthorized webhook: " ++ detail
  | .badRequest detail => "bad webhook request: " ++ detail
  | .unknownProvider provider => "unknown webhook provider: " ++ provider
  | .inside cause => cause.message

end Syndication
