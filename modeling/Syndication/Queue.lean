import Syndication.Json.Basic
import Syndication.Time.Span
import Syndication.Word

/-!
# Queue — messages that are handled at least once

Messages of all queues share one table. Taking a message hides it for a while and marks it with a
fresh receipt; who holds the receipt may acknowledge the message, which deletes it, or defer it,
which shows it again later. A receipt that has been superseded does nothing. Each taking counts, and
a deferral may give its taking back.

## Contents
* `Message`, `Held`, `MessageTable`
* `enqueue`, `dequeue`, `acknowledge`, `defer`, `count`
-/

namespace Syndication

/-- A stored message. Times are milliseconds. -/
structure Message where
  id : Nat
  queue : String
  payload : String
  visibleAt : Int
  dequeueCount : Nat
  receipt : Option Nat
  createdAt : Int
  deriving DecidableEq, Repr, Inhabited

/-- A message without its payload. -/
def Message.toJson (m : Message) : Json :=
  .record [("id", .int m.id), ("queue", .text m.queue), ("visibleAt", .int m.visibleAt),
    ("dequeueCount", .int m.dequeueCount), ("createdAt", .int m.createdAt)]

/-- A message in the hands of who took it. -/
structure Held where
  id : Nat
  receipt : Nat
  dequeueCount : Nat
  payload : String
  insertedAt : Int
  deriving DecidableEq, Repr, Inhabited

def Held.toJson (h : Held) : Json :=
  .record [("id", .int h.id), ("dequeueCount", .int h.dequeueCount), ("payload", .text h.payload),
    ("insertedAt", .int h.insertedAt)]

/-- The messages of all queues by ascending id, and the next fresh id and receipt. -/
structure MessageTable where
  messages : List Message := []
  nextId : Nat := 1
  nextReceipt : Nat := 0
  deriving Repr, Inhabited

namespace MessageTable

/-- The queue of delivery jobs. -/
def deliveryQueue : String := "postingqueue"

/-- The queue of trigger events. -/
def triggerQueue : String := "generatequeue"

/-- Stores a message that shows after a delay, and answers its id. -/
def enqueue (t : MessageTable) (queue payload : String) (now : Int) (delay : Span) :
    Nat × MessageTable :=
  (t.nextId, { t with
    messages := t.messages ++ [{
      id := t.nextId
      queue := queue
      payload := payload
      visibleAt := laterBy now delay
      dequeueCount := 0
      receipt := none
      createdAt := now }]
    nextId := t.nextId + 1 })

/-- Earlier shown messages first; of those shown at one time, by id. -/
def isBefore (a b : Message) : Bool :=
  if a.visibleAt = b.visibleAt then a.id ≤ b.id else a.visibleAt ≤ b.visibleAt

/-- The messages that a taking of at most `max` messages takes. -/
def due (t : MessageTable) (queue : String) (now : Int) (max : Nat) : List Message :=
  let shown := t.messages.filter fun m => decide (m.queue = queue) && decide (m.visibleAt ≤ now)
  let ordered := shown.mergeSort isBefore
  -- a larger number is read as a negative one, which is no bound
  if max < Word.range63 then ordered.take max else ordered

/-- The message as it is after it has been taken. -/
def Message.taken (m : Message) (hiddenUntil : Int) (receipt : Nat) : Message :=
  { m with visibleAt := hiddenUntil, dequeueCount := m.dequeueCount + 1, receipt := some receipt }

/-- The message as its holder sees it. The count is shown in 32 bits. -/
def Message.held (m : Message) (receipt : Nat) : Held :=
  ⟨m.id, receipt, m.dequeueCount % Word.range32, m.payload, m.createdAt⟩

/-- Takes at most `max` messages that show, hides them for a while and answers them by id. -/
def dequeue (t : MessageTable) (queue : String) (now : Int) (max : Nat) (hideFor : Span) :
    List Held × MessageTable :=
  if max = 0 then ([], t)
  else
    let ids := (t.due queue now max).map (·.id)
    let hiddenUntil := laterBy now hideFor
    let messages := t.messages.map fun m =>
      if m.id ∈ ids then Message.taken m hiddenUntil t.nextReceipt else m
    ((messages.filter (·.id ∈ ids)).map (Message.held · t.nextReceipt),
      { t with messages := messages, nextReceipt := t.nextReceipt + 1 })

/-- The message that a holder holds, if its receipt is the latest. -/
def isHeld (h : Held) (m : Message) : Bool := decide (m.id = h.id) && decide (m.receipt = some h.receipt)

/-- Deletes a message, unless it has been taken again since. -/
def acknowledge (t : MessageTable) (h : Held) : Bool × MessageTable :=
  (t.messages.any (isHeld h), { t with messages := t.messages.filter (!isHeld h ·) })

/-- Shows a message again after a delay, unless it has been taken again since. A taking that does not
count is given back. -/
def defer (t : MessageTable) (h : Held) (now : Int) (delay : Span) (counts : Bool) :
    Bool × MessageTable :=
  (t.messages.any (isHeld h), { t with
    messages := t.messages.map fun m =>
      if isHeld h m then
        { m with visibleAt := laterBy now delay,
                 dequeueCount := m.dequeueCount - (if counts then 0 else 1) }
      else m })

/-- How many messages a queue holds, shown or hidden. -/
def count (t : MessageTable) (queue : String) : Nat := t.messages.countP (·.queue = queue)

end MessageTable
end Syndication
