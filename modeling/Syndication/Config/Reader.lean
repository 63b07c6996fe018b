import Syndication.Config.Basic
import Syndication.Error
import Syndication.Identifier
import Syndication.Text.Utf8
import Syndication.Toml.Reader
import Syndication.Word

/-!
# Config.Reader — reading and checking a configuration

A configuration is a TOML document. What it leaves out has its default, what it holds beyond the
known fields is passed over. A document of the right shape is then checked: the first value that
cannot be used, in the order of the sections, is the one that is announced.

## Contents
* `Config.ofFields?`  — the fields of a document, with defaults
* `Config.validate`   — the first value that cannot be used
* `Config.ofToml?`, `Config.ofFile?`
-/

namespace Syndication

/-! ## Fields -/

/-- An unsigned number; the document has signed ones of 64 bits, so it ends below `2^63`. -/
def unsigned? (v : Toml) : Option Nat := v.asNatBelow? Word.range63

/-- An unsigned number of 32 bits. -/
def unsigned32? (v : Toml) : Option Nat := v.asNatBelow? Word.range32

/-- A field of a section that holds this field alone and requires it. -/
def onlyField? (name : String) (v : Toml) : Option String := do
  (← v.fields? [name]).required 0 Toml.asText?

namespace QueueConfig

def names : List String :=
  ["visibility_timeout_secs", "max_attempts", "poll_interval_ms", "batch_size", "retry_backoff_secs",
    "max_backoff_secs", "sweep_interval_secs"]

def ofToml? (v : Toml) : Option QueueConfig := do
  let fs ← v.fields? names
  let default : QueueConfig := {}
  return {
    visibilitySecs := ← fs.withDefault 0 unsigned? default.visibilitySecs
    maxAttempts := ← fs.withDefault 1 unsigned32? default.maxAttempts
    pollMillis := ← fs.withDefault 2 unsigned? default.pollMillis
    batchSize := ← fs.withDefault 3 unsigned? default.batchSize
    backoffSecs := ← fs.withDefault 4 unsigned? default.backoffSecs
    maxBackoffSecs := ← fs.withDefault 5 unsigned? default.maxBackoffSecs
    sweepSecs := ← fs.withDefault 6 unsigned? default.sweepSecs }

end QueueConfig

def ServerConfig.ofToml? (v : Toml) : Option ServerConfig := do
  let fs ← v.fields? ["bind", "max_body_size", "concurrency_limit"]
  let default : ServerConfig := {}
  return {
    bind := ← fs.withDefault 0 Toml.asText? default.bind
    maxBodySize := ← fs.withDefault 1 unsigned? default.maxBodySize
    concurrencyLimit := ← fs.withDefault 2 unsigned? default.concurrencyLimit }

namespace WebhookConfig

/-- The section about the EventSub service. -/
def signingSecret? (v : Toml) : Option String := do
  let default : WebhookConfig := {}
  (← v.fields? ["secret_name"]).withDefault 0 Toml.asText? default.signingSecret

def ofToml? (v : Toml) : Option WebhookConfig := do
  let fs ← v.fields? ["retention_hours", "max_message_age_secs", "twitch"]
  let default : WebhookConfig := {}
  return {
    retentionHours := ← fs.withDefault 0 unsigned? default.retentionHours
    maxAgeSecs := ← fs.withDefault 1 Toml.asInt? default.maxAgeSecs
    signingSecret := ← fs.withDefault 2 signingSecret? default.signingSecret }

end WebhookConfig

namespace PlatformKind

def ofName? : String → Option PlatformKind
  | "http" => some .http
  | "mock" => some .mock
  | _ => none

def name : PlatformKind → String
  | .http => "http"
  | .mock => "mock"

/-- A kind by its name, or as a table with the name as its only key and nothing under it. -/
def ofToml? : Toml → Option PlatformKind
  | .string s => ofName? s
  | .table [(s, .table [])] => ofName? s
  | .table [(s, .array [])] => ofName? s
  | _ => none

end PlatformKind

def PlatformConfig.ofToml? (v : Toml) : Option PlatformConfig := do
  let fs ← v.fields? ["id", "kind", "url_secret", "timeout_secs"]
  return {
    id := ← fs.required 0 Toml.asText?
    kind := ← fs.required 1 PlatformKind.ofToml?
    urlSecret := ← fs.optional 2 Toml.asText?
    timeoutSecs := ← fs.withDefault 3 unsigned? 30 }

/-- The limits of targets. -/
def rateLimits? : Toml → Option RateLimits
  | .table entries => entries.mapM fun (target, limit) => (unsigned32? limit).map (target, ·)
  | _ => none

namespace Config

def names : List String :=
  ["database", "storage", "queue", "server", "webhooks", "secrets", "rate_limits", "platforms"]

/-- The section about secrets. -/
def secretStart? (v : Toml) : Option String := do
  let default : Config := {}
  (← v.fields? ["env_prefix"]).withDefault 0 Toml.asText? default.secretStart

/-- The configuration that a document holds, unchecked. -/
def ofFields? (v : Toml) : Option Config := do
  let fs ← v.fields? names
  let default : Config := {}
  return {
    databasePath := ← fs.withDefault 0 (onlyField? "path") default.databasePath
    storageRoot := ← fs.withDefault 1 (onlyField? "root") default.storageRoot
    queue := ← fs.withDefault 2 QueueConfig.ofToml? default.queue
    server := ← fs.withDefault 3 ServerConfig.ofToml? default.server
    webhooks := ← fs.withDefault 4 WebhookConfig.ofToml? default.webhooks
    secretStart := ← fs.withDefault 5 secretStart? default.secretStart
    rateLimits := ← fs.withDefault 6 rateLimits? default.rateLimits
    platforms := ← fs.withDefault 7 (·.asList? PlatformConfig.ofToml?) default.platforms }

/-! ## Checks -/

/-- A text that may not be blank. -/
def checkText (field text : String) : Except ConfigError Unit :=
  if Text.isBlankText text then .error (.missingField field) else .ok ()

/-- A number that may not be zero. -/
def checkPositive (field : String) (n : Nat) : Except ConfigError Unit :=
  if n = 0 then .error (.invalidValue field "must be at least 1") else .ok ()

/-- A text in single quotes. -/
def quoted (s : String) : String := "'" ++ s ++ "'"

/-- A platform after those with the identifiers `seen`. -/
def checkPlatform (visibilitySecs : Nat) (seen : List String) (p : PlatformConfig) :
    Except ConfigError Unit :=
  if !isPathSafe p.id then
    .error (.invalidValue "platforms.id"
      (quoted p.id ++ " must be non-empty and contain no '/', '..' or whitespace"))
  else if p.id ∈ seen then
    .error (.invalidValue "platforms.id" (quoted p.id ++ " is configured more than once"))
  else if visibilitySecs ≤ p.timeoutSecs then
    .error (.invalidValue "platforms.timeout_secs"
      (quoted p.id ++ " timeout must be shorter than queue.visibility_timeout_secs (" ++
        toString visibilitySecs ++ ")"))
  else if p.kind = .http ∧ p.urlSecret = none then
    .error (.missingField ("platforms[" ++ p.id ++ "].url_secret"))
  else .ok ()

/-- Platforms one after the other. -/
def checkPlatforms (visibilitySecs : Nat) (seen : List String) :
    List PlatformConfig → Except ConfigError Unit
  | [] => .ok ()
  | p :: rest => do
    checkPlatform visibilitySecs seen p
    checkPlatforms visibilitySecs (p.id :: seen) rest

/-- Fails for the first value that cannot be used. -/
def validate (c : Config) : Except ConfigError Unit := do
  checkText "database.path" c.databasePath
  checkText "storage.root" c.storageRoot
  checkPositive "queue.max_attempts" c.queue.maxAttempts
  checkPositive "queue.batch_size" c.queue.batchSize
  checkPositive "queue.visibility_timeout_secs" c.queue.visibilitySecs
  checkPlatforms c.queue.visibilitySecs [] c.platforms

/-! ## Documents -/

/-- The configuration that a document holds. -/
def ofToml? (text : String) : Except Error Config :=
  match (Toml.ofText? text).bind ofFields? with
  | none => .error (.config (.malformed "not a configuration document"))
  | some c =>
    match c.validate with
    | .ok () => .ok c
    | .error cause => .error (.config cause)

/-- The configuration that a file holds; `none` stands for a file that cannot be read. -/
def ofFile? (content : Option Bytes) : Except Error Config :=
  match content.bind Utf8.decode? with
  | none => .error (.config (.unreadable "no readable text"))
  | some text => ofToml? text

/-- The configuration of a program whose file may be missing. -/
def orDefault? (content : Option Bytes) : Except Error Config :=
  match content with
  | none => .ok {}
  | some bytes => ofFile? (some bytes)

end Config
end Syndication
