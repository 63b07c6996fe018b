import Syndication.RateWindow
import Syndication.Retry

/-!
# Config.Basic — what can be configured

Every section has defaults, so an empty configuration is one that works, without any platforms. The
settings of a worker are derived from the section about queues: a single delivery gets four fifths of
the time that a message stays hidden, which leaves the rest to record how it ended.

## Contents
* `QueueConfig`, `ServerConfig`, `WebhookConfig`, `PlatformConfig`, `Config`
* `deliveryDeadline`, `WorkerSettings`, `QueueConfig.settings`
* `Config.ledgerRetention`
-/

namespace Syndication

/-! ## Sections -/

/-- How queues are worked on. -/
structure QueueConfig where
  /-- How long a message that was taken stays hidden, and a job that was taken stays leased. -/
  visibilitySecs : Nat := 300
  /-- How often a message may be delivered before its job has failed. -/
  maxAttempts : Nat := 5
  pollMillis : Nat := 1000
  batchSize : Nat := 16
  /-- The delay before the second attempt; it doubles with every further one. -/
  backoffSecs : Nat := 30
  maxBackoffSecs : Nat := 3600
  /-- How often a worker that stays running does maintenance. -/
  sweepSecs : Nat := 600
  deriving DecidableEq, Repr

/-- How requests are served. -/
structure ServerConfig where
  bind : String := "127.0.0.1:8080"
  maxBodySize : Nat := 1048576
  concurrencyLimit : Nat := 1000
  deriving DecidableEq, Repr

/-- How callbacks are taken. -/
structure WebhookConfig where
  /-- How long the ledgers remember. It has to be longer than `maxAgeSecs`. -/
  retentionHours : Nat := 72
  /-- A callback older than this is taken for a replay. -/
  maxAgeSecs : Int := 600
  /-- The name of the signing secret of the EventSub service. -/
  signingSecret : String := "twitch_webhook_secret"
  deriving DecidableEq, Repr

/-- How a platform is reached. -/
inductive PlatformKind where
  /-- By a request to an address that is a secret. -/
  | http
  /-- Not at all: every delivery is taken. -/
  | mock
  deriving DecidableEq, Repr

/-- A platform that posts can go to. -/
structure PlatformConfig where
  id : String
  kind : PlatformKind
  urlSecret : Option String := none
  timeoutSecs : Nat := 30
  deriving DecidableEq, Repr

/-- The whole configuration. -/
structure Config where
  databasePath : String := "~/.local/share/crosspost/crosspost.db"
  storageRoot : String := "~/.local/share/crosspost/objects"
  queue : QueueConfig := {}
  server : ServerConfig := {}
  webhooks : WebhookConfig := {}
  /-- How the variables begin that hold secrets. -/
  secretStart : String := "CROSSPOST_SECRET_"
  rateLimits : RateLimits := []
  platforms : List PlatformConfig := []
  deriving DecidableEq, Repr

/-! ## Derived settings -/

/-- Four fifths of a lease, the fifth that is taken off rounded down to a nanosecond. -/
def deliveryDeadline (visibility : Span) : Span := visibility.sub (visibility.div 5)

/-- How a worker works. -/
structure WorkerSettings where
  visibilityTimeout : Span
  /-- How long one delivery may take; it has to be shorter than `visibilityTimeout`. -/
  deliveryTimeout : Span
  maxAttempts : Nat
  batchSize : Nat
  retry : RetryPolicy
  deriving DecidableEq, Repr

namespace QueueConfig

/-- The settings of a worker. -/
def settings (q : QueueConfig) : WorkerSettings where
  visibilityTimeout := Span.ofSecs q.visibilitySecs
  deliveryTimeout := deliveryDeadline (Span.ofSecs q.visibilitySecs)
  maxAttempts := q.maxAttempts
  batchSize := q.batchSize
  retry := ⟨2, Span.ofSecs q.backoffSecs, some (Span.ofSecs q.maxBackoffSecs)⟩

/-- How long a worker rests when there is nothing to do. -/
def pollInterval (q : QueueConfig) : Span := Span.ofMillis q.pollMillis

end QueueConfig

/-- How long the ledgers remember, stopping at the longest whole number of seconds. -/
def Config.ledgerRetention (c : Config) : Span :=
  Span.ofSecs (min (c.webhooks.retentionHours * 3600) 18446744073709551615)

end Syndication
