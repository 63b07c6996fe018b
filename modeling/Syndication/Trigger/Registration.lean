import Syndication.Service

/-!
# Trigger.Registration — what users ask for

A user registers triggers and writes templates. Account types are kept in lower case, so that the
case in which a provider or a user writes them does not matter.

## Contents
* `NewTrigger`, `register`, `remove`
* `interestedUsers`
* `setTemplate`
-/

namespace Syndication

/-- What a user says about a new trigger. -/
structure NewTrigger where
  userId : String
  accountType : String
  accountId : String
  templateId : String
  target : String
  gapHours : Nat
  deriving DecidableEq, Repr

namespace NewTrigger

/-- Everything is given, and the target can be one. -/
def check (n : NewTrigger) : Except Error Unit :=
  if n.userId.isEmpty || n.accountType.isEmpty || n.accountId.isEmpty || n.templateId.isEmpty then
    .error (.invalidInput "user, account type, account id and template are required")
  else if !isPathSafe n.target then
    .error (.invalidInput ("invalid target platform id '" ++ n.target ++ "'"))
  else .ok ()

/-- The trigger that is made of it. -/
def trigger (n : NewTrigger) (triggerId : String) (now : Int) : Trigger where
  userId := n.userId
  triggerId := triggerId
  accountId := n.accountId
  accountType := Text.lower n.accountType
  templateId := n.templateId
  target := n.target
  gapHours := n.gapHours
  lastNotifiedAt := none
  createdAt := now

end NewTrigger

namespace Registration

/-- Registers a trigger under a fresh identifier. -/
def register (n : NewTrigger) : Effect Service Trigger := do
  match n.check with
  | .error e => throw e
  | .ok () =>
    let triggerId ← Service.drawId
    let t := n.trigger triggerId (← get).nowSecs
    Service.onTriggers (TriggerTable.insert t)
    return t

/-- Removes a trigger of a user and says whether there was one. -/
def remove (userId triggerId : String) : Effect Service Bool :=
  Service.changeTriggers (·.delete userId triggerId)

/-- The users with a trigger on an account. -/
def interestedUsers (s : Service) (accountType accountId : String) : List String :=
  s.triggers.interestedUsers (Text.lower accountType) accountId

/-- Writes a template of a user. -/
def setTemplate (userId templateId title body : String) : Effect Service Unit := do
  if userId.isEmpty || templateId.isEmpty then
    throw (.invalidInput "user and template id are required")
  else
    let now := (← get).nowSecs
    Service.changeTriggers fun t => ((), t.putTemplate ⟨userId, templateId, title, body, now⟩)

end Registration
end Syndication
