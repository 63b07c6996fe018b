import Syndication.Proofs.Ledger
import Syndication.Proofs.Submission.Frame
import Syndication.Proofs.Trigger.Firing

/-!
# Proofs.Trigger.Attempts — what is tried for an event

Before the post of a trigger is tried, the ledger gets an entry for the trigger and the message; it is
taken back on each way out that leads to no post. So the ledger has the entry afterwards exactly if it
had it before or the post was submitted, and one message was added in that case only. An event is a
course of such attempts, one for every trigger that awaits it.

## Contents
* `SameTriggers`                                              — registrations that stay
* `fire_spec`
* `Attempt`, `attemptOf`, `Attempted`, `attempted_consider`    — one trigger
* `Course`, `attemptsOf`, `course_process`, `exists_attemptOf` — one event
* `attemptsIn`, `course_handle`                                — one message of the trigger queue
-/

namespace Syndication.Firing

open Effect Submission

variable {e : TriggerEvent} {userId : String} {t : Trigger} {s s' u : Service} {k : FiringKey}
  {now : Int}

/-! ## Registrations -/

/-- The names of a trigger and the account that it is on. -/
def registration (t : Trigger) : String × String × String × String :=
  (t.userId, t.triggerId, t.accountType, t.accountId)

/-- Triggers are registered under the same names on the same accounts. -/
def SameTriggers (s s' : Service) : Prop :=
  s'.triggers.triggers.map registration = s.triggers.triggers.map registration

theorem SameTriggers.trans ⦃s t u : Service⦄ (h : SameTriggers s t) (h' : SameTriggers t u) :
    SameTriggers s u :=
  Eq.trans h' h

theorem sameTriggers_of_eq (h : s'.triggers = s.triggers) : SameTriggers s s' := by
  rw [SameTriggers, h]

theorem sameTriggers_of_map {f : Trigger → Trigger}
    (hf : ∀ t, registration (f t) = registration t)
    (h : s'.triggers.triggers = s.triggers.triggers.map f) : SameTriggers s s' := by
  rw [SameTriggers, h, List.map_map]
  exact List.map_congr_left fun t _ => hf t

/-- Stamping a trigger leaves its registration. -/
theorem sameTriggers_mark (h : s'.triggers = (s.triggers.tryMarkNotified userId t.triggerId now).2) :
    SameTriggers s s' := by
  refine sameTriggers_of_map (fun t => ?_) (congrArg TriggerTable.triggers h)
  split <;> rfl

theorem sameTriggers_restore {previous : Option Int}
    (h : s'.triggers = s.triggers.restoreNotified userId t.triggerId now previous) :
    SameTriggers s s' := by
  refine sameTriggers_of_map (fun t => ?_) (congrArg TriggerTable.triggers h)
  split <;> rfl

/-! ## Firing -/

/-- Nothing that firing depends on may differ. -/
structure SameFirings (s s' : Service) : Prop where
  ledger : s'.ledger = s.ledger
  triggers : s'.triggers = s.triggers

/-- A submission touches neither the ledger nor the triggers. -/
theorem respects_sameFirings : Respects SameFirings none where
  trans := fun _ _ _ h h' => ⟨h'.ledger.trans h.ledger, h'.triggers.trans h.triggers⟩
  store := fun _ _ => ⟨rfl, rfl⟩
  issuer := fun _ _ => ⟨rfl, rfl⟩
  record := fun _ _ _ => ⟨rfl, rfl⟩
  giveUp := fun _ _ _ => ⟨rfl, rfl⟩
  mail := fun _ _ _ => ⟨rfl, rfl⟩

/-- **Firing** adds one message if it succeeds, and else none. -/
theorem fire_spec (t : Trigger) (e : TriggerEvent) (s : Service) :
    SameFirings s ((fire t e).exec s).2 ∧
      Mailed (if ((fire t e).exec s).1.isOk then 1 else 0) s ((fire t e).exec s).2 := by
  rw [exec_fire]
  cases s.triggers.template? t.userId t.templateId with
  | none => exact ⟨⟨rfl, rfl⟩, .nothing rfl⟩
  | some template =>
    refine ⟨leads_submitForUser respects_sameFirings t.userId [t.target] (contentOf template e) s, ?_⟩
    simp only [isOk_map]
    exact mailed_submitForUser t.userId t.target (contentOf template e) none s

/-! ## One trigger -/

/-- A trigger that was considered for an event, and the messages that came meanwhile. -/
structure Attempt where
  key : FiringKey
  result : Except Error FiringResult
  mail : List Message

/-- The post was submitted. -/
def Attempt.Fired (a : Attempt) : Prop := a.result = .ok .submitted

/-- After a trigger was considered. -/
def afterConsidering (e : TriggerEvent) (userId : String) (t : Trigger) (s : Service) : Service :=
  ((consider e userId t).exec s).2

/-- What is written down when a trigger is considered. -/
def attemptOf (e : TriggerEvent) (userId : String) (t : Trigger) (s : Service) : Attempt where
  key := keyOf e userId t
  result := ((consider e userId t).exec s).1
  mail := (afterConsidering e userId t s).messages.messages.drop s.messages.messages.length

/-- What an attempt comes to: one message or none; and the ledger knows the trigger afterwards if it did
before or if the post was submitted. -/
structure Attempted (s : Service) (a : Attempt) (s' : Service) : Prop where
  answered : ∃ result, a.result = .ok result
  messages : s'.messages.messages = s.messages.messages ++ a.mail
  sent : a.Fired → a.mail.length = 1
  silent : ¬ a.Fired → a.mail = []
  told : a.result = .ok .alreadyFired ↔ s.ledger.HasFired a.key
  marked : ∀ k, s'.ledger.HasFired k ↔ s.ledger.HasFired k ∨ k = a.key ∧ a.Fired
  triggers : SameTriggers s s'

/-- An answer with what it leaves is an attempt. -/
theorem attempted_of {result : FiringResult}
    (hexec : (consider e userId t).exec s = (.ok result, s'))
    (hmailed : Mailed (if result = .submitted then 1 else 0) s s')
    (htold : result = .alreadyFired ↔ s.ledger.HasFired (keyOf e userId t))
    (hmarked : ∀ k, s'.ledger.HasFired k ↔
      s.ledger.HasFired k ∨ k = keyOf e userId t ∧ result = .submitted)
    (htriggers : SameTriggers s s') :
    Attempted s (attemptOf e userId t s) (afterConsidering e userId t s) := by
  have hafter : afterConsidering e userId t s = s' := congrArg Prod.snd hexec
  have hresult : (attemptOf e userId t s).result = .ok result := congrArg Prod.fst hexec
  have hfired : (attemptOf e userId t s).Fired ↔ result = .submitted := by
    rw [Attempt.Fired, hresult, Except.ok.injEq]
  obtain ⟨new, hnew, hlength, -⟩ := hmailed
  have hmail : (attemptOf e userId t s).mail = new := by
    show List.drop _ (afterConsidering e userId t s).messages.messages = new
    rw [hafter, hnew, List.drop_left]
  rw [hafter]
  refine ⟨⟨result, hresult⟩, by rw [hmail, hnew], ?_, ?_, ?_, ?_, htriggers⟩
  · intro h
    rw [hmail, hlength, if_pos (hfired.mp h)]
  · intro h
    rw [hmail, ← List.length_eq_zero_iff, hlength, if_neg (mt hfired.mpr h)]
  · rw [hresult, Except.ok.injEq]
    exact htold
  · intro k
    rw [hfired]
    exact hmarked k

theorem hasFired_readied :
    (readied e userId t s).ledger.HasFired k ↔ k = keyOf e userId t ∨ s.ledger.HasFired k :=
  Ledger.hasFired_recordFired (k := keyOf e userId t)

/-- **No trace.** The ledger with the entry made and taken back knows what it knew. -/
theorem hasFired_forgotten (hnew : ¬ s.ledger.HasFired (keyOf e userId t))
    (hledger : s'.ledger = (readied e userId t s).ledger) :
    (forgotten e userId t s').ledger.HasFired k ↔ s.ledger.HasFired k := by
  have hforget : (forgotten e userId t s').ledger.HasFired k ↔
      k ≠ keyOf e userId t ∧ s'.ledger.HasFired k := Ledger.hasFired_forgetFired (k := keyOf e userId t)
  rw [hforget, hledger, hasFired_readied]
  constructor
  · rintro ⟨hne, heq | hold⟩
    · exact absurd heq hne
    · exact hold
  · intro hold
    exact ⟨fun heq => hnew (heq ▸ hold), .inr hold⟩

/-- **Considering a trigger** comes to an attempt. -/
theorem attempted_consider (e : TriggerEvent) (userId : String) (t : Trigger) (s : Service) :
    Attempted s (attemptOf e userId t s) (afterConsidering e userId t s) := by
  by_cases hold : s.ledger.HasFired (keyOf e userId t)
  case pos => exact attempted_of (exec_consider_old hold) (.nothing rfl) (iff_of_true rfl hold) (by simp) rfl
  -- the entry is new, and every way out but one takes it back
  have hexec := exec_consider_new hold
  have hstamped : SameTriggers s (readied e userId t s) := sameTriggers_mark rfl
  split at hexec
  · refine attempted_of hexec (.nothing rfl) (iff_of_false (by simp) hold) ?_ hstamped
    intro k
    simp only [reduceCtorEq, and_false, or_false]
    exact hasFired_forgotten hold rfl
  obtain ⟨hsame, hmailed⟩ := fire_spec t e (readied e userId t s)
  rcases hfire : (fire t e).exec (readied e userId t s) with ⟨cause | u, after⟩
  all_goals
    rw [hfire] at hsame hmailed hexec
    have htriggers : SameTriggers s after := hstamped.trans (sameTriggers_of_eq hsame.triggers)
  · have hsilent : (if isHopeless cause then FiringResult.hopeless else .failed) ≠ .submitted :=
      resultOf_ne cause
    refine attempted_of hexec ?_ (iff_of_false ?_ hold) ?_ ?_
    · rw [if_neg hsilent]
      exact hmailed
    · split <;> simp
    · intro k
      simp only [hsilent, and_false, or_false]
      exact hasFired_forgotten hold hsame.ledger
    · exact htriggers.trans (sameTriggers_restore rfl)
  · refine attempted_of hexec hmailed (iff_of_false (by simp) hold) ?_ htriggers
    intro k
    have hledger : after.ledger = (readied e userId t s).ledger := hsame.ledger
    rw [hledger, hasFired_readied, or_comm, and_iff_left rfl]

/-! ## One event -/

/-- Triggers were considered one after the other, and these attempts written down. -/
inductive Course : Service → List Attempt → Service → Prop
  | done (s : Service) : Course s [] s
  | next (e : TriggerEvent) (userId : String) (t : Trigger) {s s' : Service} {log : List Attempt}
      (rest : Course (afterConsidering e userId t s) log s') :
      Course s (attemptOf e userId t s :: log) s'

namespace Course

variable {log log' : List Attempt}

theorem append (h : Course s log s') (h' : Course s' log' u) : Course s (log ++ log') u := by
  induction h with
  | done s => exact h'
  | next e userId t rest ih => exact .next e userId t (ih h')

/-- **No message without an attempt.** What is added is what the attempts added. -/
theorem messages (h : Course s log s') :
    s'.messages.messages = s.messages.messages ++ log.flatMap (·.mail) := by
  induction h with
  | done s => exact (List.append_nil _).symm
  | next e userId t rest ih =>
    rw [ih, (attempted_consider e userId t _).messages, List.append_assoc, List.flatMap_cons]

theorem sameTriggers (h : Course s log s') : SameTriggers s s' := by
  induction h with
  | done s => exact rfl
  | next e userId t rest ih => exact (attempted_consider e userId t _).triggers.trans ih

end Course

/-- After triggers of a user were considered. -/
def afterTriggers (e : TriggerEvent) (userId : String) (triggers : List Trigger) (s : Service) : Service :=
  triggers.foldl (fun s t => afterConsidering e userId t s) s

/-- What is written down for triggers of a user. -/
def attemptsOn (e : TriggerEvent) (userId : String) : List Trigger → Service → List Attempt
  | [], _ => []
  | t :: rest, s => attemptOf e userId t s :: attemptsOn e userId rest (afterConsidering e userId t s)

/-- What is written down for the triggers of users. -/
def attemptsFor (e : TriggerEvent) (accountType : String) : List String → Service → List Attempt
  | [], _ => []
  | userId :: rest, s =>
    let triggers := s.triggers.ofAccount userId accountType e.accountId
    attemptsOn e userId triggers s ++ attemptsFor e accountType rest (afterTriggers e userId triggers s)

/-- **The attempts of an event**, in their order. -/
def attemptsOf (e : TriggerEvent) (s : Service) : List Attempt :=
  attemptsFor e (Text.lower e.accountType)
    (s.triggers.interestedUsers (Text.lower e.accountType) e.accountId) s

theorem course_considerAll (e : TriggerEvent) (userId : String) (triggers : List Trigger)
    (r : FiringReport) (s : Service) :
    (∃ r', (considerAll e userId r triggers).exec s = (.ok r', afterTriggers e userId triggers s)) ∧
      Course s (attemptsOn e userId triggers s) (afterTriggers e userId triggers s) := by
  induction triggers generalizing r s with
  | nil => exact ⟨⟨r, rfl⟩, .done s⟩
  | cons t rest ih =>
    obtain ⟨result, hresult⟩ := (attempted_consider e userId t s).answered
    have hexec : (consider e userId t).exec s = (.ok result, afterConsidering e userId t s) :=
      Prod.ext hresult rfl
    obtain ⟨⟨r', hrest⟩, hcourse⟩ := ih (r.add result) (afterConsidering e userId t s)
    exact ⟨⟨r', (exec_bind_ok hexec).trans hrest⟩, .next e userId t hcourse⟩

theorem course_considerUsers (e : TriggerEvent) (accountType : String) (users : List String)
    (r : FiringReport) (s : Service) :
    ∃ r' s', (considerUsers e accountType r users).exec s = (.ok r', s') ∧
      Course s (attemptsFor e accountType users s) s' := by
  induction users generalizing r s with
  | nil => exact ⟨r, s, rfl, .done s⟩
  | cons userId rest ih =>
    obtain ⟨⟨r', hexec⟩, hcourse⟩ :=
      course_considerAll e userId (s.triggers.ofAccount userId accountType e.accountId) r s
    obtain ⟨r'', s', hrest, hcourse'⟩ := ih r' _
    refine ⟨r'', s', ?_, hcourse.append hcourse'⟩
    rw [considerUsers, exec_bind_ok (exec_get s), exec_bind_ok hexec, hrest]

/-- **Processing an event** never fails, and is a course of its attempts. -/
theorem course_process (e : TriggerEvent) (s : Service) :
    ∃ r s', (process e).exec s = (.ok r, s') ∧ Course s (attemptsOf e s) s' := by
  rw [process, exec_bind_ok (exec_get s)]
  exact course_considerUsers e _ _ {} s

/-! ### Every trigger is tried -/

/-- The trigger is registered on the account of the event, and so its user is known to be interested. -/
structure Awaits (s : Service) (e : TriggerEvent) (t : Trigger) : Prop where
  registered : t ∈ s.triggers.triggers
  accountType : t.accountType = Text.lower e.accountType
  accountId : t.accountId = e.accountId
  interested : TriggerTable.interestOf t ∈ s.triggers.interests

theorem exists_attemptOn {triggers : List Trigger} (h : t ∈ triggers) (s : Service) :
    ∃ a ∈ attemptsOn e userId triggers s, a.key = keyOf e userId t := by
  induction triggers generalizing s with
  | nil => cases h
  | cons t' rest ih =>
    rcases List.mem_cons.mp h with rfl | hrest
    · exact ⟨_, List.mem_cons_self, rfl⟩
    · obtain ⟨a, ha, hkey⟩ := ih hrest (afterConsidering e userId t' s)
      exact ⟨a, List.mem_cons_of_mem _ ha, hkey⟩

/-- A registered trigger is among those of its user on its account, as it stands there now. -/
theorem exists_ofAccount (h : registration t ∈ s.triggers.triggers.map registration) :
    ∃ t' ∈ s.triggers.ofAccount t.userId t.accountType t.accountId, t'.triggerId = t.triggerId := by
  obtain ⟨t', hmem, heq⟩ := List.mem_map.mp h
  simp only [registration, Prod.mk.injEq] at heq
  obtain ⟨huser, hid, htype, haccount⟩ := heq
  refine ⟨t', ?_, hid⟩
  rw [TriggerTable.ofAccount, List.mem_mergeSort, List.mem_filter]
  exact ⟨hmem, by simp [TriggerTable.isOn, huser, htype, haccount]⟩

theorem exists_attemptFor {users : List String} (huser : t.userId ∈ users)
    (haccount : t.accountId = e.accountId)
    (h : registration t ∈ s.triggers.triggers.map registration) :
    ∃ a ∈ attemptsFor e t.accountType users s, a.key = keyOf e t.userId t := by
  induction users generalizing s with
  | nil => cases huser
  | cons userId rest ih =>
    rw [attemptsFor]
    rcases List.mem_cons.mp huser with rfl | hrest
    · obtain ⟨t', hmem, hid⟩ := exists_ofAccount h
      rw [haccount] at hmem
      obtain ⟨a, ha, hkey⟩ := exists_attemptOn (e := e) hmem s
      exact ⟨a, List.mem_append_left _ ha, by rw [hkey, keyOf, keyOf, hid]⟩
    · obtain ⟨-, hcourse⟩ :=
        course_considerAll e userId (s.triggers.ofAccount userId t.accountType e.accountId) {} s
      obtain ⟨a, ha, hkey⟩ := ih hrest (hcourse.sameTriggers ▸ h)
      exact ⟨a, List.mem_append_right _ ha, hkey⟩

/-- **No trigger is passed over.** Processing an event tries every trigger that awaits it. -/
theorem exists_attemptOf (h : Awaits s e t) : ∃ a ∈ attemptsOf e s, a.key = keyOf e t.userId t := by
  have huser : t.userId ∈ s.triggers.interestedUsers (Text.lower e.accountType) e.accountId := by
    rw [TriggerTable.interestedUsers, List.mem_mergeSort]
    refine List.mem_map.mpr ⟨TriggerTable.interestOf t, List.mem_filter.mpr ⟨h.interested, ?_⟩, rfl⟩
    simp [TriggerTable.interestOf, h.accountType, h.accountId]
  have hattempt := exists_attemptFor huser h.accountId (List.mem_map_of_mem h.registered)
  rwa [h.accountType] at hattempt

/-! ## Messages of the trigger queue -/

/-- What is written down when a message is handled. -/
def attemptsIn (m : Held) (s : Service) : List Attempt :=
  match TriggerEvent.ofPayload? m.payload with
  | none => []
  | some e => attemptsOf e s

/-- Handling a message is a course of attempts, after which the message is put off or done with. -/
theorem course_handle (m : Held) (s : Service) :
    ∃ r s' messages, (handle m).exec s = (.ok r, { s' with messages := messages }) ∧
      Course s (attemptsIn m s) s' := by
  rw [handle, attemptsIn]
  cases TriggerEvent.ofPayload? m.payload with
  | none => exact ⟨{}, s, _, exec_bind_ok (Service.exec_acknowledge s m), .done s⟩
  | some e =>
    obtain ⟨r, s', hexec, hcourse⟩ := course_process e s
    simp only [exec_bind_ok hexec, exec_bind_ok (exec_get s')]
    split
    · exact ⟨r, s', _, exec_bind_ok (Service.exec_defer s' m _ true), hcourse⟩
    · exact ⟨r, s', _, exec_bind_ok (Service.exec_acknowledge s' m), hcourse⟩

end Syndication.Firing
