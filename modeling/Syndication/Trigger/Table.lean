import Syndication.Effect
import Syndication.Trigger.Basic

/-!
# Trigger.Table — triggers, the users they belong to, and templates

Beside the triggers stands an index from accounts to the users who have a trigger on them. A
registration adds to both or to neither; a removal takes the user out of the index with the last of
the user's triggers on the account.

## Contents
* `Interest`, `TriggerTable`
* `insert`, `delete`, `get?`, `ofUser`, `ofAccount`, `interestedUsers`
* `tryMarkNotified`, `restoreNotified`   — the stamp of the last notification
* `putTemplate`, `template?`
-/

namespace Syndication

/-- A user with a trigger on an account. -/
structure Interest where
  accountType : String
  accountId : String
  userId : String
  deriving DecidableEq, Repr

/-- The triggers, the index of accounts, and the templates. -/
structure TriggerTable where
  triggers : List Trigger := []
  interests : List Interest := []
  templates : List Template := []
  deriving Repr, Inhabited

namespace TriggerTable

/-- The trigger is this one. -/
def isTrigger (userId triggerId : String) (t : Trigger) : Bool :=
  decide (t.userId = userId) && decide (t.triggerId = triggerId)

/-- The trigger is one of this user on this account. -/
def isOn (userId accountType accountId : String) (t : Trigger) : Bool :=
  decide (t.userId = userId) && decide (t.accountType = accountType) &&
    decide (t.accountId = accountId)

/-- The interest that a trigger stands for. -/
def interestOf (t : Trigger) : Interest := ⟨t.accountType, t.accountId, t.userId⟩

/-- A new trigger; the pair of user and trigger must be new. -/
def insert (t : Trigger) : Effect TriggerTable Unit := .ofFun fun s =>
  if s.triggers.any (isTrigger t.userId t.triggerId) then
    (.error (.database (.operation "this user has a trigger with this id")), s)
  else (.ok (), { s with
    triggers := s.triggers ++ [t]
    interests := if interestOf t ∈ s.interests then s.interests else s.interests ++ [interestOf t] })

/-- A trigger of a user. -/
def get? (s : TriggerTable) (userId triggerId : String) : Option Trigger :=
  s.triggers.find? (isTrigger userId triggerId)

/-- The table without a trigger, and whether it was there. -/
def delete (s : TriggerTable) (userId triggerId : String) : Bool × TriggerTable :=
  match s.get? userId triggerId with
  | none => (false, s)
  | some t =>
    let triggers := s.triggers.filter (!isTrigger userId triggerId ·)
    let interests :=
      if triggers.any (isOn userId t.accountType t.accountId) then s.interests
      else s.interests.filter (· ≠ ⟨t.accountType, t.accountId, userId⟩)
    (true, { s with triggers := triggers, interests := interests })

/-- By age, then by identifier. -/
def isBefore (a b : Trigger) : Bool :=
  if a.createdAt = b.createdAt then a.triggerId ≤ b.triggerId else a.createdAt ≤ b.createdAt

/-- The triggers of a user. -/
def ofUser (s : TriggerTable) (userId : String) : List Trigger :=
  (s.triggers.filter (·.userId = userId)).mergeSort isBefore

/-- The triggers of a user on an account, by identifier. -/
def ofAccount (s : TriggerTable) (userId accountType accountId : String) : List Trigger :=
  (s.triggers.filter (isOn userId accountType accountId)).mergeSort fun a b =>
    a.triggerId ≤ b.triggerId

/-- The users with a trigger on an account, ascending. -/
def interestedUsers (s : TriggerTable) (accountType accountId : String) : List String :=
  ((s.interests.filter fun i =>
    decide (i.accountType = accountType) && decide (i.accountId = accountId)).map (·.userId)).mergeSort
      (· ≤ ·)

/-! ## Stamps -/

/-- Stamps a trigger with the second of a notification if its gap has passed, and says whether it
has. -/
def tryMarkNotified (s : TriggerTable) (userId triggerId : String) (now : Int) :
    Bool × TriggerTable :=
  (s.triggers.any fun t => isTrigger userId triggerId t && t.mayNotify now,
    { s with triggers := s.triggers.map fun t =>
        if isTrigger userId triggerId t && t.mayNotify now then { t with lastNotifiedAt := some now }
        else t })

/-- Puts the previous stamp back, unless the trigger has been stamped again since. -/
def restoreNotified (s : TriggerTable) (userId triggerId : String) (stamped : Int)
    (previous : Option Int) : TriggerTable :=
  { s with triggers := s.triggers.map fun t =>
      if isTrigger userId triggerId t && decide (t.lastNotifiedAt = some stamped) then
        { t with lastNotifiedAt := previous }
      else t }

/-! ## Templates -/

/-- The template is this one. -/
def isTemplate (userId templateId : String) (t : Template) : Bool :=
  decide (t.userId = userId) && decide (t.templateId = templateId)

/-- A template put in place of the one of that name. -/
def putTemplate (s : TriggerTable) (t : Template) : TriggerTable :=
  { s with templates := s.templates.filter (!isTemplate t.userId t.templateId ·) ++ [t] }

/-- A template of a user. -/
def template? (s : TriggerTable) (userId templateId : String) : Option Template :=
  s.templates.find? (isTemplate userId templateId)

end TriggerTable
end Syndication
