/-!
# Ledger — what has been seen before

Two ledgers keep a notification from being handled twice: one of the messages that providers have
sent, one of the triggers that a message has fired. An entry is new once; it can be forgotten when
what it stands for did not come about, and it is pruned when it has grown old.

## Contents
* `SeenMessage`, `FiredTrigger`, `Ledger`
* `recordMessage`, `forgetMessage`, `recordFired`, `forgetFired`
* `prune`
-/

namespace Syndication

/-- A message that a provider has sent, and the second at which it came. -/
structure SeenMessage where
  source : String
  messageId : String
  seenAt : Int
  deriving DecidableEq, Repr

/-- A trigger that a message has fired, and the second at which it did. -/
structure FiredTrigger where
  source : String
  messageId : String
  userId : String
  triggerId : String
  notifiedAt : Int
  deriving DecidableEq, Repr

/-- The two ledgers. -/
structure Ledger where
  seen : List SeenMessage := []
  fired : List FiredTrigger := []
  deriving Repr, Inhabited

namespace Ledger

/-- The entry is about this message. -/
def isMessage (source messageId : String) (e : SeenMessage) : Bool :=
  decide (e.source = source) && decide (e.messageId = messageId)

/-- The entry is about this trigger and message. -/
def isFired (source messageId userId triggerId : String) (e : FiredTrigger) : Bool :=
  decide (e.source = source) && decide (e.messageId = messageId) && decide (e.userId = userId) &&
    decide (e.triggerId = triggerId)

/-- Records a message, and says whether it is new. -/
def recordMessage (l : Ledger) (source messageId : String) (now : Int) : Bool × Ledger :=
  if l.seen.any (isMessage source messageId) then (false, l)
  else (true, { l with seen := l.seen ++ [⟨source, messageId, now⟩] })

/-- Forgets a message. -/
def forgetMessage (l : Ledger) (source messageId : String) : Ledger :=
  { l with seen := l.seen.filter (!isMessage source messageId ·) }

/-- Records that a message has fired a trigger, and says whether that is new. -/
def recordFired (l : Ledger) (source messageId userId triggerId : String) (now : Int) :
    Bool × Ledger :=
  if l.fired.any (isFired source messageId userId triggerId) then (false, l)
  else (true, { l with fired := l.fired ++ [⟨source, messageId, userId, triggerId, now⟩] })

/-- Forgets that a message has fired a trigger. -/
def forgetFired (l : Ledger) (source messageId userId triggerId : String) : Ledger :=
  { l with fired := l.fired.filter (!isFired source messageId userId triggerId ·) }

/-- Removes the entries of both ledgers that are older than `cutoff`, and counts them. -/
def prune (l : Ledger) (cutoff : Int) : Nat × Ledger :=
  (l.seen.countP (·.seenAt < cutoff) + l.fired.countP (·.notifiedAt < cutoff),
    { seen := l.seen.filter (cutoff ≤ ·.seenAt),
      fired := l.fired.filter (cutoff ≤ ·.notifiedAt) })

end Ledger
end Syndication
