import Mathlib.Logic.Relation
import Mathlib.Data.List.Induction
import Syndication.Proofs.Trigger.Turns
import Syndication.Trigger.Registration

/-!
# Proofs.Trigger.Diary — triggers come and go, and events reach them

Users register triggers, under identifiers that may be taken, and remove them; they write templates, and
events are processed or, after a failure, processed again, while the world goes on. Whatever was done
comes down to few moves of the triggers: one more, one less, or the turn of one for an event. Each keeps
the index of accounts exact, so an event reaches the triggers that are for it, and no others.

## Contents
* `Call`, `Entry`, `Diary`, `after`, `ofCalls`  — what was done, and what is written down of it
* `exec_registerAs`, `exec_register`           — a registration succeeds, or leaves the triggers alone
* `Move`, `moves_after`, `ofCalls_induction`    — calls come down to moves
* `ReachesEvery`, `ofCalls_reachesEvery`
-/

namespace Syndication.Firing

open Effect TriggerTable Relation

/-! ## Calls -/

/-- Registers a trigger under an identifier that may be taken. -/
def registerAs (n : NewTrigger) (triggerId : String) : Effect Service Trigger := do
  let t := n.trigger triggerId (← get).nowSecs
  Service.onTriggers (TriggerTable.insert t)
  return t

/-- What users, providers and the world around do. -/
inductive Call where
  /-- A trigger is registered under a fresh identifier. -/
  | register (n : NewTrigger)
  /-- A trigger is registered under an identifier that may be taken. -/
  | registerAs (n : NewTrigger) (triggerId : String)
  | remove (userId triggerId : String)
  | setTemplate (userId templateId title body : String)
  /-- A trigger has its turn for an event. Between two turns anything may happen. -/
  | turn (e : TriggerEvent) (userId triggerId : String)
  | process (e : TriggerEvent)
  | handle (m : Held)
  /-- The clock goes on or is set back, and everything else changes but the triggers. -/
  | world (s : Service)

/-- What is written down. -/
inductive Entry where
  | registered (userId triggerId : String)
  | considered (a : Turn)

/-- A service, and what was written down of its triggers, first things first. -/
structure Diary where
  service : Service
  entries : List Entry := []

namespace Diary

/-- A registration, if it succeeded. -/
def enter (d : Diary) : Except Error Trigger × Service → Diary
  | (.ok t, s) => ⟨s, d.entries ++ [.registered t.userId t.triggerId]⟩
  | (.error _, s) => { d with service := s }

/-- Turns, and the service that they left. -/
def note (d : Diary) (turns : List Turn) (s : Service) : Diary :=
  ⟨s, d.entries ++ turns.map .considered⟩

/-- After the turn of a trigger for an event. -/
def afterTurn (d : Diary) (e : TriggerEvent) (t : Trigger) : Diary :=
  d.note [turnOf e t d.service] (afterConsidering e t.userId t d.service)

/-- The turns of a message. -/
def turnsIn (m : Held) (s : Service) : List Turn :=
  match TriggerEvent.ofPayload? m.payload with
  | none => []
  | some e => turnsOf e (rowsFor e s) s

/-- After one more call. -/
def after (d : Diary) : Call → Diary
  | .register n => d.enter ((Registration.register n).exec d.service)
  | .registerAs n triggerId => d.enter ((Firing.registerAs n triggerId).exec d.service)
  | .remove userId triggerId =>
    { d with service := ((Registration.remove userId triggerId).exec d.service).2 }
  | .setTemplate userId templateId title body =>
    { d with service := ((Registration.setTemplate userId templateId title body).exec d.service).2 }
  | .turn e userId triggerId =>
    match d.service.triggers.get? userId triggerId with
    | none => d
    | some t => d.afterTurn e t
  | .process e => d.note (turnsOf e (rowsFor e d.service) d.service) ((process e).exec d.service).2
  | .handle m => d.note (turnsIn m d.service) ((handle m).exec d.service).2
  | .world s => { d with service := { s with
      triggers := { d.service.triggers with templates := s.triggers.templates } } }

/-- A service without triggers. -/
def begun (start : Service) : Diary where
  service := { start with triggers := {} }

/-- Calls on a service without triggers. -/
def ofCalls (start : Service) (calls : List Call) : Diary := calls.foldl after (begun start)

end Diary

/-! ## Registrations -/

/-- A registration adds the trigger, unless its name is taken. -/
theorem exec_registerAs (n : NewTrigger) (triggerId : String) (s : Service) :
    nameOf (n.trigger triggerId s.nowSecs) ∉ s.triggers.triggers.map nameOf ∧
        (registerAs n triggerId).exec s = (.ok (n.trigger triggerId s.nowSecs),
          { s with triggers := s.triggers.added (n.trigger triggerId s.nowSecs) }) ∨
      ∃ cause, (registerAs n triggerId).exec s = (.error cause, s) := by
  rw [registerAs, exec_bind_ok (exec_get s), exec_bind, Service.exec_onTriggers]
  rcases exec_insert (n.trigger triggerId s.nowSecs) s.triggers with ⟨hnew, hok⟩ | ⟨-, cause, herror⟩
  · rw [hok]
    exact .inl ⟨hnew, rfl⟩
  · rw [herror]
    exact .inr ⟨cause, rfl⟩

/-- A registration under a fresh identifier that passes the checks. -/
theorem exec_register (n : NewTrigger) (s : Service) :
    (∃ cause, (Registration.register n).exec s = (.error cause, s)) ∨
      (Registration.register n).exec s =
        (registerAs n (s.issuer.idOf s.issuer.ids)).exec
          { s with issuer := { s.issuer with ids := s.issuer.ids + 1 } } := by
  rw [Registration.register]
  cases n.check with
  | error cause => exact .inl ⟨cause, rfl⟩
  | ok u => exact .inr (exec_bind_ok (Service.exec_drawId s))

/-! ## Moves -/

/-- What can become of the triggers in one move, and what is written down of it. -/
inductive Move : Diary → Diary → Prop
  /-- No trigger changes. -/
  | still (d : Diary) (s : Service) (triggers : s.triggers.triggers = d.service.triggers.triggers)
      (interests : s.triggers.interests = d.service.triggers.interests) : Move d { d with service := s }
  /-- There is one more trigger, under a name that was free. -/
  | registered (d : Diary) (s : Service) (n : NewTrigger) (triggerId : String) (second : Int)
      (new : nameOf (n.trigger triggerId second) ∉ d.service.triggers.triggers.map nameOf)
      (table : s.triggers = d.service.triggers.added (n.trigger triggerId second)) :
      Move d ⟨s, d.entries ++ [.registered n.userId triggerId]⟩
  /-- There is one less. -/
  | removed (d : Diary) (s : Service) (userId triggerId : String)
      (table : s.triggers = (d.service.triggers.delete userId triggerId).2) :
      Move d { d with service := s }
  /-- A trigger has its turn. -/
  | considered (d : Diary) (e : TriggerEvent) (t : Trigger) (live : t ∈ d.service.triggers.triggers) :
      Move d (d.afterTurn e t)

variable {d d' : Diary}

/-- **A move keeps the index exact.** -/
theorem Move.exact (hmove : Move d d') (h : Exact d.service.triggers) : Exact d'.service.triggers := by
  cases hmove with
  | still s triggers interests => exact h.of_eq triggers interests
  | registered s n triggerId second new table =>
    exact table ▸ h.added new (Text.lower_lower n.accountType)
  | removed s userId triggerId table => exact table ▸ h.delete userId triggerId
  | considered e t live => exact exact_consider h live e

/-- A registration is a move. -/
theorem move_enter (d : Diary) (n : NewTrigger) (triggerId : String) {s : Service}
    (h : s.triggers = d.service.triggers) : Move d (d.enter ((registerAs n triggerId).exec s)) := by
  rcases exec_registerAs n triggerId s with ⟨hnew, hexec⟩ | ⟨cause, hexec⟩
  · rw [hexec]
    rw [h] at hnew ⊢
    exact .registered d _ n triggerId s.nowSecs hnew rfl
  · rw [hexec]
    exact .still d s (by rw [h]) (by rw [h])

/-- Triggers that have their turns one after the other move one after the other. -/
theorem moves_turns {rows : List Trigger} (h : Live rows d.service.triggers) (e : TriggerEvent) :
    ReflTransGen Move d (d.note (turnsOf e rows d.service) (afterTurns e rows d.service)) := by
  induction rows generalizing d with
  | nil =>
    have hsame : d.note (turnsOf e [] d.service) (afterTurns e [] d.service) = d := by
      simp [Diary.note, turnsOf, afterTurns]
    rw [hsame]
  | cons t rest ih =>
    have hfirst : Move d (d.afterTurn e t) := .considered d e t (h.listed t List.mem_cons_self)
    have hrest := ih (d := d.afterTurn e t) (h.next e)
    have hsame : d.note (turnsOf e (t :: rest) d.service) (afterTurns e (t :: rest) d.service) =
        (d.afterTurn e t).note (turnsOf e rest (d.afterTurn e t).service)
          (afterTurns e rest (d.afterTurn e t).service) := by
      simp [Diary.note, Diary.afterTurn, turnsOf, afterTurns]
    exact hsame ▸ hrest.head hfirst

theorem moves_process (h : Exact d.service.triggers) (e : TriggerEvent) :
    ReflTransGen Move d (d.after (.process e)) := by
  rw [Diary.after, exec_process h e]
  exact moves_turns (live_rowsFor h e) e

/-- **Every call comes down to moves.** -/
theorem moves_after (h : Exact d.service.triggers) (c : Call) : ReflTransGen Move d (d.after c) := by
  cases c with
  | register n =>
    rw [Diary.after]
    rcases exec_register n d.service with ⟨cause, hexec⟩ | hexec
    · rw [hexec]
      exact .single (.still d d.service rfl rfl)
    · rw [hexec]
      exact .single (move_enter d n _ rfl)
  | registerAs n triggerId => exact .single (move_enter d n triggerId rfl)
  | remove userId triggerId => exact .single (.removed d _ userId triggerId rfl)
  | setTemplate userId templateId title body =>
    rw [Diary.after, Registration.setTemplate]
    split
    · exact .single (.still d _ rfl rfl)
    · exact .single (.still d _ rfl rfl)
  | turn e userId triggerId =>
    rw [Diary.after]
    split
    · exact .refl
    · rename_i t hget
      exact .single (.considered d e t (List.mem_of_find?_eq_some hget))
  | process e => exact moves_process h e
  | handle m =>
    obtain ⟨messages, hexec⟩ := exec_handle m d.service
    rw [Diary.after, Diary.turnsIn, hexec]
    cases TriggerEvent.ofPayload? m.payload with
    | none =>
      simp only [Diary.note, List.map_nil, List.append_nil]
      exact .single (.still d _ rfl rfl)
    | some e => exact (moves_process h e).tail (.still _ _ rfl rfl)
  | world s => exact .single (.still d _ rfl rfl)

namespace Diary

/-- **What every move keeps** holds after any calls. -/
theorem ofCalls_induction {P : Diary → Prop} (start : Service) (begins : P (begun start))
    (move : ∀ d d', Exact d.service.triggers → P d → Move d d' → P d') (calls : List Call) :
    Exact (ofCalls start calls).service.triggers ∧ P (ofCalls start calls) := by
  induction calls using List.reverseRecOn with
  | nil => exact ⟨.empty, begins⟩
  | append_singleton calls c ih =>
    have hafter : ofCalls start (calls ++ [c]) = (ofCalls start calls).after c := by
      simp [ofCalls]
    have hmoves := moves_after ih.1 c
    rw [hafter]
    -- within the call, from move to move
    generalize (ofCalls start calls).after c = d at hmoves ⊢
    induction hmoves with
    | refl => exact ih
    | tail _ hmove ih => exact ⟨hmove.exact ih.1, move _ _ ih.1 ih.2 hmove⟩

theorem exact_ofCalls (start : Service) (calls : List Call) :
    Exact (ofCalls start calls).service.triggers :=
  (ofCalls_induction (P := fun _ => True) start trivial (fun _ _ _ _ _ => trivial) calls).1

end Diary

/-! ## Events reach their triggers -/

/-- The triggers on the account of an event, in whatever case the account types are written. -/
def matching (e : TriggerEvent) (s : Service) : List Trigger :=
  s.triggers.triggers.filter fun t =>
    decide (t.accountId = e.accountId) && decide (Text.lower t.accountType = Text.lower e.accountType)

/-- **Every event reaches every trigger** on its account, and no others. -/
structure ReachesEvery (s : Service) : Prop where
  /-- A new trigger is added if its name is free; else nothing changes. -/
  registers : ∀ t, nameOf t ∉ s.triggers.triggers.map nameOf →
    ((TriggerTable.insert t).exec s.triggers).1 = .ok () ∧
      ((TriggerTable.insert t).exec s.triggers).2.triggers = s.triggers.triggers ++ [t]
  refuses : ∀ t, nameOf t ∈ s.triggers.triggers.map nameOf →
    ∃ cause, (TriggerTable.insert t).exec s.triggers = (.error cause, s.triggers)
  /-- The trigger of a name is removed, and no other. -/
  removes : ∀ userId triggerId t,
    t ∈ ((Registration.remove userId triggerId).exec s).2.triggers.triggers ↔
      t ∈ s.triggers.triggers ∧ nameOf t ≠ (userId, triggerId)
  /-- A user is interested in an account exactly if one of the user's triggers is on it. -/
  interested : ∀ accountType accountId userId,
    userId ∈ Registration.interestedUsers s accountType accountId ↔
      ∃ t ∈ s.triggers.triggers, t.userId = userId ∧ t.accountId = accountId ∧
        Text.lower t.accountType = Text.lower accountType
  /-- No user is listed twice, and no name stands for two triggers. -/
  unique : (∀ accountType accountId, (Registration.interestedUsers s accountType accountId).Nodup) ∧
    (s.triggers.triggers.map nameOf).Nodup
  /-- The triggers that an event considers are those on its account, each once. -/
  reached : ∀ e, (rowsFor e s).Perm (matching e s)
  /-- To process the event is to consider these triggers, one after the other. -/
  processed : ∀ e, (process e).exec s =
    (.ok (adding {} (turnsOf e (rowsFor e s) s)), afterTurns e (rowsFor e s) s)
  /-- The report counts all of them but those that were given up. -/
  counted : ∀ e r s', (process e).exec s = (.ok r, s') → (matching e s).length =
    r.submitted + r.throttled + r.alreadyFired + r.failed + told .hopeless (turnsOf e (rowsFor e s) s)

theorem matching_eq {s : Service} (h : Exact s.triggers) (e : TriggerEvent) :
    matching e s = s.triggers.triggers.filter (isAt (Text.lower e.accountType) e.accountId) := by
  refine List.filter_congr fun t ht => ?_
  rw [h.lowered t ht, isAt, Bool.and_comm]

theorem reachesEvery_of_exact {s : Service} (h : Exact s.triggers) : ReachesEvery s where
  registers := by
    intro t hnew
    obtain ⟨-, hexec⟩ := (exec_insert t s.triggers).resolve_right fun hold => hnew hold.1
    rw [hexec]
    exact ⟨rfl, rfl⟩
  refuses := by
    intro t hold
    exact ((exec_insert t s.triggers).resolve_left fun hnew => hnew.1 hold).2
  removes := fun _ _ _ => mem_triggers_delete
  interested := by
    intro accountType accountId userId
    rw [Registration.interestedUsers, mem_interestedUsers_iff h]
    refine exists_congr fun t => and_congr_right fun ht => ?_
    rw [h.lowered t ht, interestOf, Interest.mk.injEq]
    tauto
  unique := ⟨fun _ _ => nodup_interestedUsers h, h.named⟩
  reached := fun e => matching_eq h e ▸ awaiting_perm h
  processed := exec_process h
  counted := by
    intro e r s' hexec
    rw [exec_process h e, Prod.mk.injEq, Except.ok.injEq] at hexec
    obtain ⟨rfl, -⟩ := hexec
    have hlength : (rowsFor e s).length = (matching e s).length :=
      (matching_eq h e ▸ awaiting_perm h : (rowsFor e s).Perm (matching e s)).length_eq
    rw [← hlength, length_eq_told e (rowsFor e s) s]
    simp [adding]

/-- **No notification is lost.** After any registrations, also under identifiers that are taken, and any
removals, by any users and with account types in any case, mixed with events and whatever else happens:
triggers are added and removed one by one; the index of accounts is exact; an event considers every
trigger on its account once and no other; and its report counts them all but those that were given up,
whose posts were tried and failed as invalid or for want of something. -/
theorem Diary.ofCalls_reachesEvery (start : Service) (calls : List Call) :
    ReachesEvery (ofCalls start calls).service ∧
      ∀ e userId t s, ((Firing.consider e userId t).exec s).1 = .ok .hopeless ↔
        ¬ s.ledger.HasFired (keyOf e userId t) ∧
          (s.triggers.tryMarkNotified userId t.triggerId s.nowSecs).1 = true ∧
            ∃ message, ((fire t e).exec (readied e userId t s)).1 = .error (.invalidInput message) ∨
              ((fire t e).exec (readied e userId t s)).1 = .error (.notFound message) :=
  ⟨reachesEvery_of_exact (exact_ofCalls start calls), fun _ _ _ _ => consider_eq_hopeless_iff⟩

end Syndication.Firing
