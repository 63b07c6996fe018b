import Syndication.Proofs.Ledger
import Syndication.Proofs.Platform.Delivery
import Syndication.Proofs.Submission.FanOut
import Syndication.Trigger.Firing

/-!
# Proofs.Trigger.Firing — a trigger posts once or not at all

Considering a trigger changes the ledger and the stamps, which no post depends on, and posts what its
template makes of the event at most once. It says that the post was submitted exactly when it was.

## Contents
* `SamePosts`                              — services that differ in nothing a post depends on
* `keyOf`, `readied`, `forgotten`, `restored`
* `exec_consider_old`, `exec_consider_new` — the ways of a trigger
* `consider_eq_submitted_iff`
* `Considered`, `consider_spec`
-/

namespace Syndication

/-- A service with the same records, messages and bundles, in which no identifier was given back. -/
structure SamePosts (s s' : Service) : Prop where
  jobs : s'.jobs = s.jobs
  messages : s'.messages = s.messages
  bundles : SameBundles s.store s'.store
  idSeed : s'.issuer.idSeed = s.issuer.idSeed
  ids : s.issuer.ids ≤ s'.issuer.ids

theorem SamePosts.refl (s : Service) : SamePosts s s := ⟨rfl, rfl, .refl _, rfl, Nat.le_refl _⟩

/-- Nothing that a post depends on was touched. -/
theorem SamePosts.of_eq {s s' : Service} (hjobs : s'.jobs = s.jobs) (hmessages : s'.messages = s.messages)
    (hstore : s'.store = s.store) (hissuer : s'.issuer = s.issuer) : SamePosts s s' where
  jobs := hjobs
  messages := hmessages
  bundles := hstore ▸ .refl _
  idSeed := by rw [hissuer]
  ids := hissuer ▸ Nat.le_refl _

namespace Firing

theorem exec_fire (t : Trigger) (e : TriggerEvent) (s : Service) :
    (fire t e).exec s =
      match s.triggers.template? t.userId t.templateId with
      | none => (.error (.notFound ("template " ++ t.templateId)), s)
      | some template =>
        (((Submission.submitForUser t.userId [t.target] (contentOf template e) none).exec s).1.map
            fun _ => (),
          ((Submission.submitForUser t.userId [t.target] (contentOf template e) none).exec s).2) := by
  rw [fire, Effect.exec_bind_ok (Effect.exec_get s)]
  cases s.triggers.template? t.userId t.templateId with
  | none => rfl
  | some template =>
    simp only [Effect.exec_bind]
    rcases (Submission.submitForUser t.userId [t.target] (contentOf template e) none).exec s
      with ⟨cause | receipt, after⟩ <;> rfl

/-! ## One trigger -/

section

open Effect

variable {e : TriggerEvent} {userId : String} {t : Trigger} {s : Service}

/-- The trigger of a user and the message of an event. -/
def keyOf (e : TriggerEvent) (userId : String) (t : Trigger) : FiringKey :=
  ⟨e.source, e.messageId, userId, t.triggerId⟩

/-- The service in which the post is tried, with the entry and the stamp. -/
def readied (e : TriggerEvent) (userId : String) (t : Trigger) (s : Service) : Service :=
  { s with
    ledger := (s.ledger.recordFired e.source e.messageId userId t.triggerId s.nowSecs).2
    triggers := (s.triggers.tryMarkNotified userId t.triggerId s.nowSecs).2 }

/-- The service with the entry taken back. -/
def forgotten (e : TriggerEvent) (userId : String) (t : Trigger) (s : Service) : Service :=
  { s with ledger := s.ledger.forgetFired e.source e.messageId userId t.triggerId }

/-- The service with the stamp that the trigger had. -/
def restored (userId : String) (t : Trigger) (now : Int) (s : Service) : Service :=
  { s with triggers := s.triggers.restoreNotified userId t.triggerId now t.lastNotifiedAt }

/-- A trigger that has fired for the message is passed over. -/
theorem exec_consider_old (h : s.ledger.HasFired (keyOf e userId t)) :
    (consider e userId t).exec s = (.ok .alreadyFired, s) := by
  have hrecord : s.ledger.recordFired e.source e.messageId userId t.triggerId s.nowSecs =
      (false, s.ledger) := Ledger.recordFired_old h
  rw [consider, exec_bind_ok (exec_get s), exec_bind_ok (Service.exec_changeLedger s _), hrecord]
  rfl

/-- A trigger that is new for the message is stamped, and its post tried, unless its gap has not
passed. -/
theorem exec_consider_new (h : ¬ s.ledger.HasFired (keyOf e userId t)) :
    (consider e userId t).exec s =
      if (s.triggers.tryMarkNotified userId t.triggerId s.nowSecs).1 = false then
        (.ok .throttled, forgotten e userId t (readied e userId t s))
      else match (fire t e).exec (readied e userId t s) with
        | (.ok _, after) => (.ok .submitted, after)
        | (.error cause, after) => (.ok (if isHopeless cause then .hopeless else .failed),
            forgotten e userId t (restored userId t s.nowSecs after)) := by
  have hrecord : (s.ledger.recordFired e.source e.messageId userId t.triggerId s.nowSecs).1 = true :=
    Ledger.recordFired_new h
  rw [consider, exec_bind_ok (exec_get s), exec_bind_ok (Service.exec_changeLedger s _), hrecord,
    if_neg (by simp), exec_bind_ok (Service.exec_changeTriggers _ _)]
  cases hstamp : (s.triggers.tryMarkNotified userId t.triggerId s.nowSecs).1 with
  | false => rfl
  | true =>
    rw [if_neg (by simp), if_neg (by simp), exec_settle_bind]
    have hreadied : readied e userId t s = { s with
        ledger := (s.ledger.recordFired e.source e.messageId userId t.triggerId s.nowSecs).2
        triggers := (s.triggers.tryMarkNotified userId t.triggerId s.nowSecs).2 } := rfl
    rw [← hreadied]
    rcases (fire t e).exec (readied e userId t s) with ⟨cause | u, after⟩ <;> rfl

/-- **A post is submitted** exactly if the trigger has not fired for the message, its gap has passed, and
the submission succeeds. -/
theorem consider_eq_submitted_iff : ((consider e userId t).exec s).1 = .ok .submitted ↔
    ¬ s.ledger.HasFired (keyOf e userId t) ∧
      (s.triggers.tryMarkNotified userId t.triggerId s.nowSecs).1 = true ∧
        ((fire t e).exec (readied e userId t s)).1 = .ok () := by
  by_cases hold : s.ledger.HasFired (keyOf e userId t)
  case pos =>
    rw [exec_consider_old hold]
    exact iff_of_false (by simp) fun h => h.1 hold
  rw [exec_consider_new hold]
  split
  · rename_i hstamp
    exact iff_of_false (by simp) fun h => by simp [hstamp] at h
  · rename_i hstamp
    rw [Bool.not_eq_false] at hstamp
    rcases (fire t e).exec (readied e userId t s) with ⟨cause | u, after⟩
    · refine iff_of_false ?_ (by simp)
      rw [Except.ok.injEq]
      split <;> simp
    · exact iff_of_true rfl ⟨hold, hstamp, rfl⟩

end

/-- What considering a trigger comes to. -/
inductive Considered (e : TriggerEvent) (t : Trigger) (s : Service) :
    Except Error FiringResult → Service → Prop
  /-- Nothing was to be posted. -/
  | passed {s' : Service} (result : FiringResult) (silent : result ≠ .submitted)
      (same : SamePosts s s') : Considered e t s (.ok result) s'
  /-- The post was tried, and the answer says whether it was submitted. -/
  | tried {before after s' : Service} (template : Template) (result : FiringResult)
      (found : s.triggers.template? t.userId t.templateId = some template)
      (same : SamePosts s before) (issuer : before.issuer = s.issuer)
      {r : Except Error Receipt}
      (post : (Submission.submitForUser t.userId [t.target] (contentOf template e) none).exec before =
        (r, after))
      (told : result = .submitted ↔ ∃ receipt, r = .ok receipt)
      (same' : SamePosts after s') : Considered e t s (.ok result) s'

/-- The failure of a trigger is never told as a submission. -/
theorem resultOf_ne (cause : Error) :
    (if isHopeless cause then FiringResult.hopeless else .failed) ≠ .submitted := by
  split <;> simp

/-- **Considering a trigger** posts at most once, and says so exactly when the post was submitted. -/
theorem consider_spec (e : TriggerEvent) (userId : String) (t : Trigger) (s : Service) :
    Considered e t s ((consider e userId t).exec s).1 ((consider e userId t).exec s).2 := by
  by_cases hold : s.ledger.HasFired (keyOf e userId t)
  case pos =>
    rw [exec_consider_old hold]
    exact .passed .alreadyFired (by simp) (.refl s)
  rw [exec_consider_new hold]
  split
  · exact .passed .throttled (by simp) (.of_eq rfl rfl rfl rfl)
  -- the ledger and the stamps have changed, but the templates are those there were
  have hready : SamePosts s (readied e userId t s) := .of_eq rfl rfl rfl rfl
  have htemplate : (readied e userId t s).triggers.template? t.userId t.templateId =
      s.triggers.template? t.userId t.templateId := rfl
  rw [exec_fire, htemplate]
  cases hfound : s.triggers.template? t.userId t.templateId with
  | none => exact .passed _ (resultOf_ne _) (.of_eq rfl rfl rfl rfl)
  | some template =>
    simp only
    rcases hpost : (Submission.submitForUser t.userId [t.target] (contentOf template e) none).exec
      (readied e userId t s) with ⟨cause | receipt, after⟩
    · refine .tried template _ hfound hready rfl hpost ?_ (.of_eq rfl rfl rfl rfl)
      exact iff_of_false (resultOf_ne cause) (by simp)
    · exact .tried template _ hfound hready rfl hpost (by simp) (.of_eq rfl rfl rfl rfl)

end Firing
end Syndication
