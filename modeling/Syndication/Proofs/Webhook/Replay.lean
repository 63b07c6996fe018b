import Mathlib.Logic.Relation
import Syndication.Proofs.Maintenance
import Syndication.Proofs.Time.Order
import Syndication.Proofs.Webhook.Ingest

/-!
# Proofs.Webhook.Replay — a callback that is sent again

Whoever has seen a signed callback can send it again. Two things stop it: the ledger knows its message id
until maintenance prunes the entry, and the timestamp, which the signature covers, grows old. The entry
has the second at which the callback was taken and is pruned only when more than the retention has passed
since. The age is cut to whole seconds too, and the callback may have been sent a whole second before it
was taken by the clock of seconds. Even so it is refused for its age before its entry is gone, if the
retention is longer than the greatest age.

## Contents
* `Inbox`, `acceptedAt`, `Step`, `Run`
* `secondOf_le_of_signed`              — how long a callback is believed
* `Inv`, `inv_step`, `inv_run`
* `run_acceptedOnce`
-/

namespace Syndication

namespace Webhook

open EventSub Ledger Maintenance

variable {headers : Http.Headers} {body : Bytes} {s s' : Service}

/-! ## Runs -/

/-- A callback that was answered by queueing its event, and the reading of the clock. -/
structure Accepted where
  headers : Http.Headers
  body : Bytes
  now : Int
  deriving DecidableEq

/-- A service, and the callbacks whose events it has queued. -/
structure Inbox where
  service : Service
  accepted : List Accepted := []

namespace Inbox

/-- What is written down of an answer. -/
def acceptance (headers : Http.Headers) (body : Bytes) (now : Int) :
    Except WebhookError Ack → List Accepted
  | .ok .queued => [⟨headers, body, now⟩]
  | _ => []

/-- After a callback. -/
def afterIngest (w : Inbox) (provider : String) (headers : Http.Headers) (body : Bytes) : Inbox where
  service := (ingest provider headers body w.service).2
  accepted := w.accepted ++
    acceptance headers body w.service.now (ingest provider headers body w.service).1

/-- The readings of the clock at which a callback was answered by queueing its event. -/
def acceptedAt (w : Inbox) (headers : Http.Headers) (body : Bytes) : List Int :=
  (w.accepted.filter fun a => a.headers = headers ∧ a.body = body).map (·.now)

/-- One step of a run. -/
inductive Step : Inbox → Inbox → Prop
  /-- A callback comes, with any headers and body, that may have come before. -/
  | ingest (w : Inbox) (provider : String) (headers : Http.Headers) (body : Bytes) :
      Step w (w.afterIngest provider headers body)
  /-- Maintenance with the configured retention. -/
  | maintain (w : Inbox) :
      Step w { w with service := (maintainAsConfigured.exec w.service).2 }
  /-- The clock goes on, secrets change, or anything else but the configuration and the ledger of
  messages. -/
  | surroundings (w : Inbox) (s : Service) (config : s.config = w.service.config)
      (seen : s.ledger.seen = w.service.ledger.seen) (later : w.service.now ≤ s.now) :
      Step w { w with service := s }

/-- Any number of steps. -/
def Run : Inbox → Inbox → Prop := Relation.ReflTransGen Step

/-- The instant that the headers of a callback say it was sent at. -/
def sentAt? (headers : Http.Headers) : Option Instant :=
  (header headers timestampHeader).toOption.bind Stamp.strict?

end Inbox

/-! ## How long a callback is believed -/

theorem sentAt?_of_signed (c : Signed s headers body) : Inbox.sentAt? headers = some c.sent := by
  rw [Inbox.sentAt?, c.hasTimestamp]
  exact c.reads

/-- A callback that is believed was sent at most the greatest age and a second ago, counted from any
reading at which it had been sent. -/
theorem secondOf_le_of_signed (c : Signed s headers body) {first : Int}
    (hsent : c.sent ≤ .ofMillis first) :
    s.nowSecs ≤ secondOf first + s.config.webhooks.maxAgeSecs + 1 :=
  Instant.secondOf_le_of_age hsent (Stamp.isHeld_of_strict? c.reads).nanos_lt c.isFresh

/-- A callback that is answered by queueing was believed and new, and is known from then on. -/
theorem ingest_queued {provider : String}
    (h : (ingest provider headers body s).1 = .ok .queued) :
    ∃ c : Signed s headers body, ¬ s.ledger.HasSeen source c.messageId ∧
      ⟨source, c.messageId, s.nowSecs⟩ ∈ (ingest provider headers body s).2.ledger.seen := by
  have hspec := ingest_spec provider headers body s
  rw [h] at hspec
  generalize (ingest provider headers body s).2 = s' at hspec ⊢
  cases hspec with
  | quiet ack silent => exact absurd rfl silent
  | queued c known notification new e messageId calendar =>
    exact ⟨c, new, mem_withMessage.mpr (.inr rfl)⟩

/-! ## The invariant -/

/-- The retention is longer than the greatest age, and the cutoff fits its word, now and later. -/
structure IsGuarded (s : Service) : Prop where
  longer : s.config.webhooks.maxAgeSecs < s.config.ledgerRetention.secs
  word : (s.config.ledgerRetention.secs : Int) ≤ Word.range63 + s.nowSecs

/-- The callback with these headers that was taken at a second is known, or too old. -/
def Remembers (s : Service) (headers : Http.Headers) (second : Int) : Prop :=
  (∃ messageId, header headers messageIdHeader = .ok messageId ∧
    ∃ x ∈ s.ledger.seen, x.source = source ∧ x.messageId = messageId ∧ second ≤ x.seenAt) ∨
    second + s.config.ledgerRetention.secs < s.nowSecs

/-- A later state with the same configuration. -/
structure Follows (s s' : Service) : Prop where
  config : s'.config = s.config
  later : s.nowSecs ≤ s'.nowSecs

theorem IsGuarded.follows (h : IsGuarded s) (hs : Follows s s') : IsGuarded s' := by
  obtain ⟨hconfig, hlater⟩ := hs
  obtain ⟨hlonger, hword⟩ := h
  rw [← hconfig] at hlonger hword
  exact ⟨hlonger, by omega⟩

/-- What is known stays known, as long as the ledger keeps it. -/
theorem Remembers.grows {second : Int} (h : Remembers s headers second) (hs : Follows s s')
    (hseen : ∀ x ∈ s.ledger.seen, x ∈ s'.ledger.seen) : Remembers s' headers second := by
  rcases h with ⟨messageId, hid, x, hx, hentry⟩ | hold
  · exact .inl ⟨messageId, hid, x, hseen x hx, hentry⟩
  · refine .inr ?_
    rw [hs.config]
    exact Int.lt_of_lt_of_le hold hs.later

/-- An entry is pruned only when the callback is too old. -/
theorem Remembers.maintained {second : Int} (hguarded : IsGuarded s) (h : Remembers s headers second) :
    Remembers (maintainAsConfigured.exec s).2 headers second := by
  obtain ⟨st, ledger, windows, hexec, hledger⟩ := snd_exec_maintain s.config.ledgerRetention s
  rw [exec_maintainAsConfigured, hexec]
  rcases h with ⟨messageId, hid, x, hx, hsource, hmessage, hsecond⟩ | hold
  case inr => exact .inr hold
  have hcutoff := cutoffOf_le hguarded.word
  rcases hledger with rfl | rfl
  · exact .inl ⟨messageId, hid, x, hx, hsource, hmessage, hsecond⟩
  by_cases hkept : cutoffOf s.nowSecs s.config.ledgerRetention ≤ x.seenAt
  · exact .inl ⟨messageId, hid, x, mem_seen_prune.mpr ⟨hx, hkept⟩, hsource, hmessage, hsecond⟩
  · refine .inr ?_
    show second + s.config.ledgerRetention.secs < s.nowSecs
    omega

/-- **A callback that was taken is known as long as it is believed.** -/
theorem Remembers.hasSeen {first : Int} (hguarded : IsGuarded s)
    (h : Remembers s headers (secondOf first)) (c : Signed s headers body)
    (hsent : c.sent ≤ .ofMillis first) : s.ledger.HasSeen source c.messageId := by
  rcases h with ⟨messageId, hid, x, hx, hsource, hmessage, -⟩ | hold
  · have hsame : messageId = c.messageId := Except.ok.inj (hid.symm.trans c.hasMessageId)
    exact ⟨x, hx, hsource, hmessage.trans hsame⟩
  · have hlimit := secondOf_le_of_signed c hsent
    have hlonger := hguarded.longer
    omega

namespace Inbox

variable {w w' start : Inbox}

/-- **The invariant of a run**: a callback that had been sent when it was taken was taken once, and is
known or too old. -/
structure Inv (headers : Http.Headers) (body : Bytes) (w : Inbox) : Prop where
  guarded : IsGuarded w.service
  once : ∀ first rest, w.acceptedAt headers body = first :: rest →
    (∀ sent ∈ sentAt? headers, sent ≤ .ofMillis first) →
      rest = [] ∧ Remembers w.service headers (secondOf first)

theorem inv_start (h : IsGuarded s) : Inv headers body { service := s } where
  guarded := h
  once := fun _ _ h => nomatch h

/-- The invariant where no callback is taken. -/
theorem Inv.still (h : Inv headers body w) (hs : Follows w.service s')
    (hremembers : ∀ second, Remembers w.service headers second → Remembers s' headers second) :
    Inv headers body { w with service := s' } where
  guarded := h.guarded.follows hs
  once := by
    intro first rest hat hsent
    obtain ⟨hrest, hknown⟩ := h.once first rest hat hsent
    exact ⟨hrest, hremembers _ hknown⟩

/-- A callback leaves the configuration and the clock, and forgets nothing. -/
theorem follows_ingest (provider : String) (headers : Http.Headers) (body : Bytes) (s : Service) :
    Follows s (ingest provider headers body s).2 ∧
      ∀ x ∈ s.ledger.seen, x ∈ (ingest provider headers body s).2.ledger.seen := by
  have hspec := ingest_spec provider headers body s
  generalize ingest provider headers body s = answer at hspec ⊢
  obtain ⟨r, s'⟩ := answer
  cases hspec with
  | failed e => exact ⟨⟨rfl, Int.le_refl _⟩, fun x hx => hx⟩
  | quiet ack silent => exact ⟨⟨rfl, Int.le_refl _⟩, fun x hx => hx⟩
  | noted c known notification new reason =>
    exact ⟨⟨rfl, Int.le_refl _⟩, fun x hx => mem_withMessage.mpr (.inl hx)⟩
  | queued c known notification new e messageId calendar =>
    exact ⟨⟨rfl, Int.le_refl _⟩, fun x hx => mem_withMessage.mpr (.inl hx)⟩

/-- What was taken stays written down. -/
theorem acceptedAt_grows (w : Inbox) (provider : String) (headers' : Http.Headers) (body' : Bytes)
    (headers : Http.Headers) (body : Bytes) :
    ∃ more, (w.afterIngest provider headers' body').acceptedAt headers body =
      w.acceptedAt headers body ++ more := by
  rw [afterIngest, acceptedAt, acceptedAt, List.filter_append, List.map_append]
  exact ⟨_, rfl⟩

/-- A callback that is queued counts as taken. -/
theorem acceptedAt_of_queued {w : Inbox} {provider : String}
    (h : (ingest provider headers body w.service).1 = .ok .queued) :
    (w.afterIngest provider headers body).acceptedAt headers body =
      w.acceptedAt headers body ++ [w.service.now] := by
  simp [afterIngest, acceptedAt, h, acceptance]

/-- Only a callback of the same headers and body counts, and only if it is queued. -/
theorem acceptedAt_afterIngest (w : Inbox) (provider : String) (headers' : Http.Headers)
    (body' : Bytes) (headers : Http.Headers) (body : Bytes) :
    (w.afterIngest provider headers' body').acceptedAt headers body = w.acceptedAt headers body ∨
      headers' = headers ∧ body' = body ∧
        (ingest provider headers' body' w.service).1 = .ok .queued := by
  by_cases hqueued : (ingest provider headers' body' w.service).1 = .ok .queued
  case neg =>
    have hnone : acceptance headers' body' w.service.now
        (ingest provider headers' body' w.service).1 = [] := by
      unfold acceptance
      split
      · rename_i h
        exact absurd h hqueued
      · rfl
    rw [afterIngest, hnone, List.append_nil]
    exact .inl rfl
  by_cases hsame : headers' = headers ∧ body' = body
  · exact .inr ⟨hsame.1, hsame.2, hqueued⟩
  · refine .inl ?_
    rw [afterIngest, acceptedAt, acceptedAt, List.filter_append, hqueued, acceptance,
      List.filter_cons_of_neg (by simpa using hsame), List.filter_nil, List.append_nil]

/-- **A callback comes**: taken once, it is known and not taken again. -/
theorem Inv.ingested (h : Inv headers body w) (provider : String) (headers' : Http.Headers)
    (body' : Bytes) : Inv headers body (w.afterIngest provider headers' body') := by
  obtain ⟨hfollows, hseen⟩ := follows_ingest provider headers' body' w.service
  refine ⟨h.guarded.follows hfollows, ?_⟩
  intro first rest hat hsent
  rcases acceptedAt_afterIngest w provider headers' body' headers body with
    heq | ⟨rfl, rfl, hqueued⟩
  · obtain ⟨hrest, hknown⟩ := h.once first rest (heq ▸ hat) hsent
    exact ⟨hrest, hknown.grows hfollows hseen⟩
  obtain ⟨c, hnew, hadded⟩ := ingest_queued hqueued
  rw [acceptedAt_of_queued hqueued] at hat
  cases hbefore : w.acceptedAt headers' body' with
  | nil =>
    -- the first time: the entry has the second of this reading
    rw [hbefore] at hat
    obtain ⟨rfl, rfl⟩ := List.cons.inj hat
    exact ⟨rfl, .inl ⟨c.messageId, c.hasMessageId, _, hadded, rfl, rfl, Int.le_refl _⟩⟩
  | cons first' rest' =>
    -- it would be new a second time, though it is known
    rw [hbefore] at hat
    obtain ⟨rfl, -⟩ := List.cons.inj hat
    obtain ⟨-, hknown⟩ := h.once first' rest' hbefore hsent
    exact absurd (hknown.hasSeen h.guarded c (hsent _ (sentAt?_of_signed c))) hnew

theorem inv_step (h : Inv headers body w) (hstep : Step w w') : Inv headers body w' := by
  cases hstep with
  | ingest provider headers' body' => exact h.ingested provider headers' body'
  | maintain =>
    refine h.still ?_ fun second hknown => hknown.maintained h.guarded
    obtain ⟨st, ledger, windows, hexec, -⟩ :=
      snd_exec_maintain w.service.config.ledgerRetention w.service
    rw [exec_maintainAsConfigured, hexec]
    exact ⟨rfl, Int.le_refl _⟩
  | surroundings s config seen later =>
    have hfollows : Follows w.service s := ⟨config, secondOf_mono later⟩
    exact h.still hfollows fun second hknown => hknown.grows hfollows fun x hx => seen ▸ hx

/-- **The invariant holds after every run.** -/
theorem inv_run (h : Inv headers body w) (hrun : Run w w') : Inv headers body w' := by
  induction hrun with
  | refl => exact h
  | tail _ hstep ih => exact inv_step ih hstep

/-- **A callback that is sent again is not taken again.** In any run of callbacks and maintenance, with
the clock never going back and the retention longer than the greatest age, the same headers and body are
answered by queueing their event at most once, if their timestamp was not ahead of the clock the first
time. Maintenance counts back in a signed word of 64 bits, which the retention has to leave room for: at
any time since 1970 it has room for `2 ^ 63` seconds. -/
theorem run_acceptedOnce (start : Service) (w : Inbox) (headers : Http.Headers) (body : Bytes)
    (hlonger : start.config.webhooks.maxAgeSecs < start.config.ledgerRetention.secs)
    (hword : (start.config.ledgerRetention.secs : Int) ≤ Word.range63 + start.nowSecs)
    (hrun : Run { service := start } w)
    (hsent : ∀ first ∈ (w.acceptedAt headers body).head?, ∀ sent ∈ sentAt? headers,
      sent ≤ .ofMillis first) :
    (w.acceptedAt headers body).length ≤ 1 := by
  have h : Inv headers body w := inv_run (inv_start ⟨hlonger, hword⟩) hrun
  cases hat : w.acceptedAt headers body with
  | nil => exact Nat.zero_le _
  | cons first rest =>
    rw [hat] at hsent
    obtain ⟨rfl, -⟩ := h.once first rest hat (hsent first rfl)
    exact Nat.le_refl _

/-! ## A callback that is sent twice -/

/-- The callback is sent, maintenance passes, and the callback is sent again: it is taken once. -/
theorem run_acceptedOnce_sentTwice : ∃ w, Run { service := sampleService } w ∧
    (w.acceptedAt sampleHeaders sampleBody).length = 1 := by
  let first := afterIngest { service := sampleService } source sampleHeaders sampleBody
  let maintained : Inbox := { first with service := (maintainAsConfigured.exec first.service).2 }
  have hrun : Run { service := sampleService }
      (maintained.afterIngest source sampleHeaders sampleBody) :=
    .tail (.tail (.single (.ingest _ _ _ _)) (.maintain _)) (.ingest _ _ _ _)
  have hfirst : first.acceptedAt sampleHeaders sampleBody = [0] :=
    acceptedAt_of_queued (w := { service := sampleService }) (congrArg Prod.fst ingest_sample)
  have hkept : maintained.acceptedAt sampleHeaders sampleBody =
      first.acceptedAt sampleHeaders sampleBody := by
    unfold acceptedAt
    rfl
  obtain ⟨rest, hat⟩ := acceptedAt_grows maintained source sampleHeaders sampleBody sampleHeaders
    sampleBody
  rw [hkept, hfirst, List.singleton_append] at hat
  have hle := run_acceptedOnce sampleService _ sampleHeaders sampleBody (by decide +kernel)
    (by decide +kernel) hrun (by
      rw [hat, sentAt?_of_signed sampleSigned]
      rintro _ ⟨⟩ _ ⟨⟩
      decide +kernel)
  refine ⟨_, hrun, Nat.le_antisymm hle ?_⟩
  rw [hat]
  exact Nat.succ_le_succ (Nat.zero_le _)

end Inbox

end Webhook
end Syndication
