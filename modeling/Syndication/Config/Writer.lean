import Syndication.Config.Reader
import Syndication.Json.Time

/-!
# Config.Writer — a configuration as a JSON document

The document has every section and every field under the name that it has in a configuration file,
with the defaults filled in.

## Contents
* `Config.toJson`, `WorkerSettings.toJson`
-/

namespace Syndication

def QueueConfig.toJson (q : QueueConfig) : Json :=
  let values : List Nat := [q.visibilitySecs, q.maxAttempts, q.pollMillis, q.batchSize, q.backoffSecs,
    q.maxBackoffSecs, q.sweepSecs]
  .record (QueueConfig.names.zip (values.map fun n : Nat => .int n))

def ServerConfig.toJson (s : ServerConfig) : Json :=
  .record [("bind", .text s.bind), ("max_body_size", .int s.maxBodySize),
    ("concurrency_limit", .int s.concurrencyLimit)]

def WebhookConfig.toJson (w : WebhookConfig) : Json :=
  .record [("retention_hours", .int w.retentionHours), ("max_message_age_secs", .int w.maxAgeSecs),
    ("twitch", .record [("secret_name", .text w.signingSecret)])]

def PlatformConfig.toJson (p : PlatformConfig) : Json :=
  .record [("id", .text p.id), ("kind", .text p.kind.name),
    ("url_secret", .orNull .text p.urlSecret), ("timeout_secs", .int p.timeoutSecs)]

/-- Every section, in the order in which they are declared. -/
def Config.toJson (c : Config) : Json :=
  .record [("database", .record [("path", .text c.databasePath)]),
    ("storage", .record [("root", .text c.storageRoot)]), ("queue", c.queue.toJson),
    ("server", c.server.toJson), ("webhooks", c.webhooks.toJson),
    ("secrets", .record [("env_prefix", .text c.secretStart)]),
    ("rate_limits", .record (c.rateLimits.map fun (target, limit) => (target, .int limit))),
    ("platforms", .array (c.platforms.map PlatformConfig.toJson))]

def RetryPolicy.toJson (r : RetryPolicy) : Json :=
  .record [("coefficient", .int r.coefficient), ("initial", r.initial.toJson),
    ("maximum", .orNull Span.toJson r.maximum)]

/-- The settings of a worker. -/
def WorkerSettings.toJson (s : WorkerSettings) : Json :=
  .record [("visibilityTimeout", s.visibilityTimeout.toJson),
    ("deliveryTimeout", s.deliveryTimeout.toJson), ("maxAttempts", .int s.maxAttempts),
    ("batchSize", .int s.batchSize), ("retry", s.retry.toJson)]

end Syndication
