import Syndication.Service
import Syndication.Word

/-!
# Maintenance — clearing away what is done

Bundles whose jobs have all ended, ledger entries that are older than the retention, and budget
windows before the current hour are removed.

## Contents
* `cutoffOf`             — the second before which ledger entries are old
* `MaintenanceReport`, `maintain`
-/

namespace Syndication

/-- What a pass removed, and how many bundles it had to leave. -/
structure MaintenanceReport where
  bundles : Staging.SweepReport := {}
  ledgerRows : Nat := 0
  rateWindows : Nat := 0
  deriving DecidableEq, Repr

def MaintenanceReport.toJson (r : MaintenanceReport) : Json :=
  .record [("collected", .int r.bundles.collected), ("ledgerRows", .int r.ledgerRows),
    ("locked", .int r.bundles.locked), ("rateWindows", .int r.rateWindows)]

namespace Maintenance

/-- The second that lies `retention` before `now`. Both the retention and the difference are taken as
signed 64-bit words. -/
def cutoffOf (now : Int) (retention : Span) : Int :=
  Int.bmod (now - toSigned64 retention.secs) Word.range64

/-- One pass. -/
def maintain (retention : Span) : Effect Service MaintenanceReport := do
  let now := (← get).nowSecs
  let bundles ← Service.onStore Staging.sweep
  let ledgerRows ← Service.changeLedger (·.prune (cutoffOf now retention))
  let rateWindows ← Service.changeWindows (·.cleanup now)
  return ⟨bundles, ledgerRows, rateWindows⟩

/-- One pass with the configured retention. -/
def maintainAsConfigured : Effect Service MaintenanceReport := do
  maintain (← get).config.ledgerRetention

end Maintenance
end Syndication
