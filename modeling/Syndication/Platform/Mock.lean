import Syndication.Report
import Syndication.Session
import Syndication.Time.Span

/-!
# Platform.Mock — platforms that post nowhere

A mock takes deliveries, or fails them in a way that is chosen for it. It counts its calls and
remembers the jobs that it took, and it may note them in a session of its own.

## Contents
* `MockBehavior`, `Mock`
* `Mock.verdict`  — the answer to a call
* `Mock.note`     — the entry in the session
-/

namespace Syndication

/-- How a mock answers. -/
inductive MockBehavior where
  | succeeds
  /-- It takes the delivery but for these parts. -/
  | leavesOut (parts : List PartFailure)
  /-- Its network fails for the first `n` calls. -/
  | failsFirst (n : Nat)
  /-- Its network always fails. -/
  | unreachable (detail : String)
  /-- It refuses every post. -/
  | refuses (detail : String)
  deriving DecidableEq, Repr

/-- A platform that posts nowhere. -/
structure Mock where
  id : String
  behavior : MockBehavior := .succeeds
  delay : Span := Span.zero
  recordsSession : Bool := false
  calls : Nat := 0
  delivered : List String := []
  deriving Repr

namespace Mock

/-- The key of the session that a mock notes its jobs in. -/
def sessionKey (m : Mock) : String := "mock/" ++ m.id

/-- The report on a job that was taken. -/
def reportOf (m : Mock) (jobId : String) (failed : List PartFailure) : DeliveryReport :=
  { platformPostId := some (m.id ++ ":" ++ jobId), failedParts := failed }

/-- The answer to call number `call`. -/
def verdict (m : Mock) (call : Nat) (jobId : String) : Except PlatformError DeliveryReport :=
  match m.behavior with
  | .succeeds => .ok (m.reportOf jobId [])
  | .leavesOut parts => .ok (m.reportOf jobId parts)
  | .failsFirst n =>
    if call ≤ n then
      .error (.network ("mock network failure " ++ toString call ++ " of " ++ toString n))
    else .ok (m.reportOf jobId [])
  | .unreachable detail => .error (.network detail)
  | .refuses detail => .error (.posting detail)

/-- Notes a job in the session, if the mock keeps one. -/
def note (m : Mock) (jobId : String) : Effect SessionWorld Unit := do
  if m.recordsSession then
    let handle ← Session.openKey m.sessionKey
    Session.onRegistry fun r => ((), Session.append handle (Utf8.encode jobId ++ [0x0A]) r)
    Session.flushHandle handle
  else return

end Mock
end Syndication
