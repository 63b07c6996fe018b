import Mathlib.Logic.Relation
import Syndication.Proofs.Trigger.Attempts

/-!
# Proofs.Trigger.Logbook — an event fires a trigger once

An event may be processed any number of times: its message is shown again when a trigger failed, and the
provider may send it again. Of all attempts for a trigger and a message, in any run, one at most submits
a post. Those before it are repeated, since they left no entry in the ledger, and those after it find
the entry.

## Contents
* `HasSubmitted`, `mailFor`   — what was written down for a trigger and a message
* `Inv`, `Inv.attempted`, `Inv.course`
* `Logbook`, `Step`, `Run`, `run_firedOnce`
-/

namespace Syndication.Firing

variable {s s' : Service} {k : FiringKey}

/-! ## What was written down -/

/-- A post was submitted for the key. -/
def HasSubmitted (log : List Attempt) (k : FiringKey) : Prop := ∃ a ∈ log, a.key = k ∧ a.Fired

/-- The messages that were added on behalf of a key. -/
def mailFor (log : List Attempt) (k : FiringKey) : List Message :=
  (log.filter fun a => a.key = k).flatMap (·.mail)

variable {log : List Attempt} {a : Attempt}

theorem hasSubmitted_append_singleton :
    HasSubmitted (log ++ [a]) k ↔ HasSubmitted log k ∨ k = a.key ∧ a.Fired := by
  simp only [HasSubmitted, List.mem_append, List.mem_singleton, or_and_right, exists_or, exists_eq_left]
  rw [eq_comm]

theorem mailFor_append_self (log : List Attempt) (a : Attempt) :
    mailFor (log ++ [a]) a.key = mailFor log a.key ++ a.mail := by
  simp [mailFor]

theorem mailFor_append_other (h : a.key ≠ k) : mailFor (log ++ [a]) k = mailFor log k := by
  simp [mailFor, h]

/-- **The invariant of a run**: what the ledger knows is what it knew and what was submitted since; at
most one message was added on behalf of a key, and exactly if a post was submitted for it; and an attempt
says that its trigger has fired exactly if it had. -/
structure Inv (start : Ledger) (s : Service) (log : List Attempt) : Prop where
  marked : ∀ k, s.ledger.HasFired k ↔ start.HasFired k ∨ HasSubmitted log k
  once : ∀ k, (mailFor log k).length ≤ 1
  mailed : ∀ k, mailFor log k ≠ [] ↔ HasSubmitted log k
  told : ∀ earlier a, earlier ++ [a] <+: log →
    (a.result = .ok .alreadyFired ↔ start.HasFired a.key ∨ HasSubmitted earlier a.key)

theorem inv_start (s : Service) : Inv s.ledger s [] where
  marked := by simp [HasSubmitted]
  once := fun _ => Nat.zero_le _
  mailed := by simp [HasSubmitted, mailFor]
  told := by simp

variable {start : Ledger}

/-- A trigger that fires had not fired, so nothing had been added on its behalf. -/
theorem Inv.mailFor_eq_nil (h : Inv start s log) (ha : Attempted s a s') (hfired : a.Fired) :
    mailFor log a.key = [] := by
  by_contra hmail
  have hknown : s.ledger.HasFired a.key := (h.marked _).mpr (.inr ((h.mailed _).mp hmail))
  have hold : a.result = .ok .alreadyFired := ha.told.mpr hknown
  rw [hfired] at hold
  cases hold

/-- **One more attempt** keeps the invariant. -/
theorem Inv.attempted (h : Inv start s log) (ha : Attempted s a s') : Inv start s' (log ++ [a]) where
  marked := by
    intro k
    rw [ha.marked, h.marked, hasSubmitted_append_singleton, or_assoc]
  once := by
    intro k
    by_cases hkey : a.key = k
    case neg => exact (mailFor_append_other hkey).symm ▸ h.once k
    subst hkey
    rw [mailFor_append_self]
    by_cases hfired : a.Fired
    · rw [h.mailFor_eq_nil ha hfired, List.nil_append]
      exact Nat.le_of_eq (ha.sent hfired)
    · rw [ha.silent hfired, List.append_nil]
      exact h.once _
  mailed := by
    intro k
    rw [hasSubmitted_append_singleton, ← h.mailed]
    by_cases hkey : a.key = k
    case neg => rw [mailFor_append_other hkey, or_iff_left fun hk => hkey hk.1.symm]
    subst hkey
    rw [mailFor_append_self]
    by_cases hfired : a.Fired
    · have hmail : a.mail ≠ [] := List.ne_nil_of_length_pos (by rw [ha.sent hfired]; exact Nat.one_pos)
      exact iff_of_true (List.append_ne_nil_of_right_ne_nil _ hmail) (.inr ⟨rfl, hfired⟩)
    · rw [ha.silent hfired, List.append_nil, or_iff_left fun hk => hfired hk.2]
  told := by
    intro earlier b hprefix
    -- the last attempt was told by the ledger, which holds what the log so far has submitted
    rcases List.prefix_concat_iff.mp hprefix with heq | hearlier
    · obtain ⟨rfl, hlast⟩ := List.append_inj' heq rfl
      obtain rfl := List.head_eq_of_cons_eq hlast
      rw [ha.told, h.marked]
    · exact h.told earlier b hearlier

/-- **A course keeps the invariant.** -/
theorem Inv.course {log' : List Attempt} (h : Inv start s log) (hcourse : Course s log' s') :
    Inv start s' (log ++ log') := by
  induction hcourse generalizing log with
  | done s => rwa [List.append_nil]
  | next e userId t rest ih =>
    have hfirst := h.attempted (attempted_consider e userId t _)
    rw [List.append_cons]
    exact ih hfirst

/-- The invariant depends on the ledger of triggers only. -/
theorem Inv.still (h : Inv start s log) (hfired : s'.ledger.fired = s.ledger.fired) :
    Inv start s' log where
  marked := by
    intro k
    rw [Ledger.HasFired, hfired]
    exact h.marked k
  once := h.once
  mailed := h.mailed
  told := h.told

/-! ## Runs -/

/-- A service, and the triggers that were considered, first things first. -/
structure Logbook where
  service : Service
  attempts : List Attempt := []

namespace Logbook

/-- After an event was processed. -/
def afterProcessing (w : Logbook) (e : TriggerEvent) : Logbook where
  service := ((process e).exec w.service).2
  attempts := w.attempts ++ attemptsOf e w.service

/-- After a message was handled. -/
def afterHandling (w : Logbook) (m : Held) : Logbook where
  service := ((handle m).exec w.service).2
  attempts := w.attempts ++ attemptsIn m w.service

/-- One step of a run. -/
inductive Step : Logbook → Logbook → Prop
  /-- An event is processed, that may have been processed before. -/
  | process (w : Logbook) (e : TriggerEvent) : Step w (w.afterProcessing e)
  /-- A message is handled, that may have been handled before. -/
  | handle (w : Logbook) (m : Held) : Step w (w.afterHandling m)
  /-- The clock goes on, triggers and templates come and go, or anything else changes but the ledger of
  triggers. -/
  | surroundings (w : Logbook) (s : Service) (fired : s.ledger.fired = w.service.ledger.fired) :
      Step w { w with service := s }

/-- Any number of steps. -/
def Run : Logbook → Logbook → Prop := Relation.ReflTransGen Step

variable {w w' : Logbook}

theorem inv_step (h : Inv start w.service w.attempts) (hstep : Step w w') :
    Inv start w'.service w'.attempts := by
  cases hstep with
  | process e =>
    obtain ⟨r, s', hexec, hcourse⟩ := course_process e w.service
    have hservice : (w.afterProcessing e).service = s' := congrArg Prod.snd hexec
    rw [hservice]
    exact h.course hcourse
  | handle m =>
    obtain ⟨r, s', messages, hexec, hcourse⟩ := course_handle m w.service
    have hservice : (w.afterHandling m).service = { s' with messages := messages } :=
      congrArg Prod.snd hexec
    rw [hservice]
    exact (h.course hcourse).still rfl
  | surroundings s' fired => exact h.still fired

/-- **The invariant holds after every run.** -/
theorem inv_run (h : Inv start w.service w.attempts) (hrun : Run w w') :
    Inv start w'.service w'.attempts := by
  induction hrun with
  | refl => exact h
  | tail _ hstep ih => exact inv_step ih hstep

/-- **A message fires a trigger at most once.** After any run of events, repeated or retried or mixed with
others, with any triggers and templates and whatever submissions fail: at most one message was added on
behalf of a trigger and a message, and the ledger knows them exactly if it did before or if that message
was added. So an attempt, at any time of the run, is answered by `alreadyFired` exactly if an earlier one
was submitted. Processing an event once more adds no message that is not written down and tries every
trigger that awaits it; and such an attempt is submitted exactly if the ledger does not know it, the gap
has passed, and the submission succeeds. -/
theorem run_firedOnce (s : Service) (w : Logbook) (hrun : Run { service := s } w) :
    (∀ k, (mailFor w.attempts k).length ≤ 1 ∧
      (mailFor w.attempts k ≠ [] ↔ HasSubmitted w.attempts k) ∧
      (w.service.ledger.HasFired k ↔ s.ledger.HasFired k ∨ HasSubmitted w.attempts k)) ∧
    (∀ earlier a, earlier ++ [a] <+: w.attempts →
      (a.result = .ok .alreadyFired ↔ s.ledger.HasFired a.key ∨ HasSubmitted earlier a.key)) ∧
    ∀ e, ((process e).exec w.service).2.messages.messages =
        w.service.messages.messages ++ (attemptsOf e w.service).flatMap (·.mail) ∧
      (∀ t, Awaits w.service e t → ∃ a ∈ attemptsOf e w.service, a.key = keyOf e t.userId t) ∧
      ∀ userId t, ((consider e userId t).exec w.service).1 = .ok .submitted ↔
        ¬ w.service.ledger.HasFired (keyOf e userId t) ∧
          (w.service.triggers.tryMarkNotified userId t.triggerId w.service.nowSecs).1 = true ∧
            ((fire t e).exec (readied e userId t w.service)).1 = .ok () := by
  have h : Inv s.ledger w.service w.attempts := inv_run (inv_start s) hrun
  refine ⟨fun k => ⟨h.once k, h.mailed k, h.marked k⟩, h.told, fun e => ⟨?_, ?_, ?_⟩⟩
  · obtain ⟨r, s', hexec, hcourse⟩ := course_process e w.service
    rw [hexec]
    exact hcourse.messages
  · exact fun t => exists_attemptOf
  · exact fun userId t => consider_eq_submitted_iff

/-! ## An event that is processed twice -/

/-- A stream that has begun. -/
def sampleEvent : TriggerEvent where
  source := "twitch"
  messageId := "m1"
  accountType := "twitch"
  accountId := "7"
  kind := "stream.online"
  occurredAt := ⟨0, 0⟩

/-- A trigger for it. -/
def sampleTrigger : Trigger := ⟨"ada", "t1", "7", "twitch", "live", "blog", 1, none, 0⟩

/-- A service with the trigger, its template and a platform. -/
def sampleService : Service :=
  { Service.started {} [] with
    platforms := ⟨[.mock { id := "blog" }]⟩
    triggers := {
      triggers := [sampleTrigger]
      interests := [TriggerTable.interestOf sampleTrigger]
      templates := [⟨"ada", "live", "Live", "Now", 0⟩] } }

/-- The event is processed twice: one message is added, and the ledger knows the trigger. -/
theorem run_firedOnce_twice : ∃ w, Run { service := sampleService } w ∧
    (mailFor w.attempts (keyOf sampleEvent "ada" sampleTrigger)).length = 1 ∧
    w.service.ledger.HasFired (keyOf sampleEvent "ada" sampleTrigger) := by
  let first := afterProcessing { service := sampleService } sampleEvent
  let second := first.afterProcessing sampleEvent
  have hrun : Run { service := sampleService } second :=
    .tail (.single (.process _ sampleEvent)) (.process first sampleEvent)
  have hfirst : ∃ a ∈ attemptsOf sampleEvent sampleService,
      a.key = keyOf sampleEvent "ada" sampleTrigger ∧ a.result.toOption = some .submitted := by
    decide +kernel
  have hsubmitted : HasSubmitted second.attempts (keyOf sampleEvent "ada" sampleTrigger) := by
    obtain ⟨a, ha, hkey, hresult⟩ := hfirst
    exact ⟨a, List.mem_append_left _ (List.mem_append_right _ ha), hkey,
      Effect.toOption_eq_some.mp hresult⟩
  obtain ⟨honce, hmailed, hmarked⟩ :=
    (run_firedOnce sampleService second hrun).1 (keyOf sampleEvent "ada" sampleTrigger)
  refine ⟨_, hrun, Nat.le_antisymm honce ?_, hmarked.mpr (.inr hsubmitted)⟩
  exact List.length_pos_of_ne_nil (hmailed.mpr hsubmitted)

end Logbook
end Syndication.Firing
