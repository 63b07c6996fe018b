import Syndication.Ledger

/-!
# Proofs.Ledger — what has been seen before

Either ledger is a list, but all that is asked of it is what it knows. A new entry is recorded once; one
that is recorded as new and forgotten again leaves the ledger as it was; and pruning forgets what is older
than the cutoff.

## Contents
* `HasSeen`, `HasFired`, `FiringKey`     — what a ledger knows
* `recordMessage_new`, `recordMessage_old`, `forgetMessage_recorded`, `mem_seen_prune`
* `recordFired_new`, `recordFired_old`, `hasFired_recordFired`, `hasFired_forgetFired`
-/

namespace Syndication

/-- A trigger of a user and a message that may have fired it. -/
structure FiringKey where
  source : String
  messageId : String
  userId : String
  triggerId : String
  deriving DecidableEq, Repr

/-- What an entry is about. -/
def FiredTrigger.key (x : FiredTrigger) : FiringKey := ⟨x.source, x.messageId, x.userId, x.triggerId⟩

namespace Ledger

variable {l : Ledger} {source messageId : String} {now : Int}

/-! ## Messages -/

/-- The message has been recorded. -/
def HasSeen (l : Ledger) (source messageId : String) : Prop :=
  ∃ x ∈ l.seen, x.source = source ∧ x.messageId = messageId

theorem isMessage_iff {x : SeenMessage} :
    isMessage source messageId x = true ↔ x.source = source ∧ x.messageId = messageId := by
  rw [isMessage, Bool.and_eq_true, decide_eq_true_eq, decide_eq_true_eq]

theorem any_isMessage_iff :
    l.seen.any (isMessage source messageId) = true ↔ l.HasSeen source messageId := by
  simp only [List.any_eq_true, isMessage_iff]
  exact Iff.rfl

/-- The ledger with one more message. -/
def withMessage (l : Ledger) (source messageId : String) (now : Int) : Ledger :=
  { l with seen := l.seen ++ [⟨source, messageId, now⟩] }

theorem recordMessage_new (h : ¬ l.HasSeen source messageId) :
    l.recordMessage source messageId now = (true, l.withMessage source messageId now) := by
  rw [recordMessage, if_neg (mt any_isMessage_iff.mp h)]
  rfl

theorem recordMessage_old (h : l.HasSeen source messageId) :
    l.recordMessage source messageId now = (false, l) := by
  rw [recordMessage, if_pos (any_isMessage_iff.mpr h)]

/-- **No trace.** A message that was new and is forgotten leaves the ledger as it was. -/
theorem forgetMessage_recorded (h : ¬ l.HasSeen source messageId) (now : Int) :
    (l.withMessage source messageId now).forgetMessage source messageId = l := by
  have hkept : ∀ x ∈ l.seen, (!isMessage source messageId x) = true := by
    intro x hx
    rw [Bool.not_eq_true', Bool.eq_false_iff]
    exact fun hsame => h ⟨x, hx, isMessage_iff.mp hsame⟩
  have hgone : isMessage source messageId ⟨source, messageId, now⟩ = true := isMessage_iff.mpr ⟨rfl, rfl⟩
  simp [forgetMessage, withMessage, List.filter_eq_self.mpr hkept, hgone]

/-- What is new stands behind the rest, which stays. -/
theorem mem_withMessage {x : SeenMessage} :
    x ∈ (l.withMessage source messageId now).seen ↔ x ∈ l.seen ∨ x = ⟨source, messageId, now⟩ := by
  rw [withMessage, List.mem_append, List.mem_singleton]

/-- A message is pruned if it is older than the cutoff. -/
theorem mem_seen_prune {cutoff : Int} {x : SeenMessage} :
    x ∈ (l.prune cutoff).2.seen ↔ x ∈ l.seen ∧ cutoff ≤ x.seenAt := by
  rw [prune, List.mem_filter, decide_eq_true_eq]

/-! ## Triggers -/

/-- The message has fired the trigger. -/
def HasFired (l : Ledger) (k : FiringKey) : Prop := ∃ x ∈ l.fired, x.key = k

theorem isFired_iff {k : FiringKey} {x : FiredTrigger} :
    isFired k.source k.messageId k.userId k.triggerId x = true ↔ x.key = k := by
  obtain ⟨source, messageId, userId, triggerId⟩ := k
  simp only [isFired, Bool.and_eq_true, decide_eq_true_eq, FiredTrigger.key, FiringKey.mk.injEq,
    and_assoc]

theorem any_isFired_iff {k : FiringKey} :
    l.fired.any (isFired k.source k.messageId k.userId k.triggerId) = true ↔ l.HasFired k := by
  simp only [List.any_eq_true, isFired_iff]
  exact Iff.rfl

theorem recordFired_new {k : FiringKey} (h : ¬ l.HasFired k) :
    (l.recordFired k.source k.messageId k.userId k.triggerId now).1 = true := by
  rw [recordFired, if_neg (mt any_isFired_iff.mp h)]

theorem recordFired_old {k : FiringKey} (h : l.HasFired k) :
    l.recordFired k.source k.messageId k.userId k.triggerId now = (false, l) := by
  rw [recordFired, if_pos (any_isFired_iff.mpr h)]

/-- After recording, the ledger knows one thing more, if it did not know it before. -/
theorem hasFired_recordFired {k k' : FiringKey} :
    HasFired (l.recordFired k.source k.messageId k.userId k.triggerId now).2 k' ↔
      k' = k ∨ l.HasFired k' := by
  by_cases h : l.HasFired k
  · rw [recordFired_old h, iff_or_self]
    rintro rfl
    exact h
  · rw [recordFired, if_neg (mt any_isFired_iff.mp h)]
    simp only [HasFired, List.mem_append, List.mem_singleton, or_and_right, exists_or, exists_eq_left]
    rw [or_comm, eq_comm]
    rfl

/-- What is forgotten is all that the ledger does not know any more. -/
theorem hasFired_forgetFired {k k' : FiringKey} :
    HasFired (l.forgetFired k.source k.messageId k.userId k.triggerId) k' ↔
      k' ≠ k ∧ l.HasFired k' := by
  simp only [HasFired, forgetFired, List.mem_filter, Bool.not_eq_true', Bool.eq_false_iff, ne_eq,
    isFired_iff]
  constructor
  · rintro ⟨x, ⟨hx, hne⟩, rfl⟩
    exact ⟨hne, x, hx, rfl⟩
  · rintro ⟨hne, x, hx, rfl⟩
    exact ⟨x, ⟨hx, hne⟩, rfl⟩

end Ledger
end Syndication
