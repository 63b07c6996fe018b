import Mathlib.Data.List.Nodup
import Syndication.Job.Basic
import Syndication.Queue

/-!
# Proofs.Queue — messages keep what they say

Taking and deferring change when a message shows, who holds it and how often it was taken, but not
what it says: its identifier, its queue and its payload. Only an acknowledgement removes a message,
and only the one it is for.

## Contents
* `Letter`, `SameLetters`        — what a message says
* `carries`, `carriers`          — the messages that carry a job
* `sameLetters_dequeue`, `sameLetters_defer`, `mem_dequeue`
* `carriers_acknowledge`, `carriers_enqueue`
* `WellNumbered`                 — numbers of messages
-/

namespace Syndication

/-- What a message says. -/
structure Letter where
  id : Nat
  queue : String
  payload : String

/-- What a message says, apart from when it shows and how often it was taken. -/
def Message.letter (m : Message) : Letter := ⟨m.id, m.queue, m.payload⟩

/-- The letter lies in the delivery queue and carries the job with this identifier. -/
def Letter.carries (jobId : String) (l : Letter) : Bool :=
  decide (l.queue = MessageTable.deliveryQueue) &&
    match Job.ofPayload? l.payload with
    | some job => decide (job.jobId = jobId)
    | none => false

theorem Letter.carries_iff {jobId : String} {l : Letter} :
    l.carries jobId = true ↔ l.queue = MessageTable.deliveryQueue ∧
      ∃ job, Job.ofPayload? l.payload = some job ∧ job.jobId = jobId := by
  rw [carries, Bool.and_eq_true, decide_eq_true_eq]
  apply and_congr_right
  intro _
  cases Job.ofPayload? l.payload with
  | none => simp
  | some job => simp

namespace MessageTable

variable {t t' : MessageTable}

/-- How many messages of the delivery queue carry a job. -/
def carriers (t : MessageTable) (jobId : String) : Nat :=
  t.messages.countP (·.letter.carries jobId)

/-- The tables hold the same letters. -/
structure SameLetters (t t' : MessageTable) : Prop where
  letters : t'.messages.map Message.letter = t.messages.map Message.letter
  nextId : t'.nextId = t.nextId

theorem SameLetters.refl (t : MessageTable) : SameLetters t t := ⟨rfl, rfl⟩

/-- A change of messages that keeps what they say. -/
theorem sameLetters_map {f : Message → Message} (hf : ∀ m, (f m).letter = m.letter) {receipt : Nat} :
    SameLetters t { t with messages := t.messages.map f, nextReceipt := receipt } where
  letters := by
    simp only [List.map_map]
    exact List.map_congr_left fun m _ => hf m
  nextId := rfl

theorem SameLetters.carriers (h : SameLetters t t') (jobId : String) :
    t'.carriers jobId = t.carriers jobId := by
  have hcount : ∀ u : MessageTable,
      u.carriers jobId = (u.messages.map Message.letter).countP (·.carries jobId) := by
    intro u
    rw [List.countP_map]
    rfl
  rw [hcount, hcount, h.letters]

theorem SameLetters.exists_mem (h : SameLetters t t') {m' : Message} (hm' : m' ∈ t'.messages) :
    ∃ m ∈ t.messages, m.letter = m'.letter := by
  have hmem : m'.letter ∈ t'.messages.map Message.letter := List.mem_map_of_mem hm'
  rw [h.letters] at hmem
  exact List.mem_map.mp hmem

theorem SameLetters.ids (h : SameLetters t t') :
    t'.messages.map (·.id) = t.messages.map (·.id) := by
  have hids : ∀ u : MessageTable,
      u.messages.map (·.id) = (u.messages.map Message.letter).map Letter.id := by
    intro u
    rw [List.map_map]
    rfl
  rw [hids, hids, h.letters]

/-! ## Taking and deferring -/

theorem sameLetters_dequeue (queue : String) (now : Int) (max : Nat) (hideFor : Span) :
    SameLetters t (t.dequeue queue now max hideFor).2 := by
  unfold dequeue
  split
  · exact .refl t
  · apply sameLetters_map
    intro m
    split <;> rfl

theorem mem_of_mem_due {queue : String} {now : Int} {max : Nat} {m : Message}
    (h : m ∈ t.due queue now max) : m ∈ t.messages ∧ m.queue = queue ∧ m.visibleAt ≤ now := by
  have hordered : m ∈ (t.messages.filter fun m =>
      decide (m.queue = queue) && decide (m.visibleAt ≤ now)).mergeSort isBefore := by
    simp only [due] at h
    split at h
    · exact List.mem_of_mem_take h
    · exact h
  rw [List.mem_mergeSort, List.mem_filter, Bool.and_eq_true, decide_eq_true_eq,
    decide_eq_true_eq] at hordered
  exact hordered

/-- What is taken are messages of the queue that was asked for. -/
theorem mem_dequeue {queue : String} {now : Int} {max : Nat} {hideFor : Span} {h : Held}
    (hmem : h ∈ (t.dequeue queue now max hideFor).1) (hids : (t.messages.map (·.id)).Nodup) :
    ∃ m ∈ t.messages, m.letter = ⟨h.id, queue, h.payload⟩ := by
  unfold dequeue at hmem
  split at hmem
  · cases hmem
  obtain ⟨m', hm', rfl⟩ := List.mem_map.mp hmem
  rw [List.mem_filter, decide_eq_true_eq] at hm'
  obtain ⟨hm', hid⟩ := hm'
  obtain ⟨due, hdue, heq⟩ := List.mem_map.mp hid
  obtain ⟨m, hm, rfl⟩ := List.mem_map.mp hm'
  obtain ⟨hmem, hqueue, -⟩ := mem_of_mem_due hdue
  have hletter : (if m.id ∈ (t.due queue now max).map (·.id) then
      Message.taken m (laterBy now hideFor) t.nextReceipt else m).letter = m.letter := by
    split <;> rfl
  have hsame := congrArg Letter.id hletter
  -- the identifier of what was taken is that of the one message that was due
  have hdueEq : due = m := List.inj_on_of_nodup_map hids hmem hm (heq.trans hsame)
  refine ⟨m, hm, ?_⟩
  rw [← hletter, Message.letter, Letter.mk.injEq]
  refine ⟨rfl, ?_, rfl⟩
  have hq := congrArg Letter.queue hletter
  exact hq.trans (hdueEq ▸ hqueue)

theorem sameLetters_defer (h : Held) (now : Int) (delay : Span) (counts : Bool) :
    SameLetters t (t.defer h now delay counts).2 := by
  apply sameLetters_map
  intro m
  split <;> rfl

/-! ## Adding and removing -/

theorem mem_acknowledge {h : Held} {m : Message} :
    m ∈ (t.acknowledge h).2.messages ↔ m ∈ t.messages ∧ isHeld h m = false := by
  simp [acknowledge]

/-- An acknowledgement removes no carrier of a job that the message does not carry. -/
theorem carriers_acknowledge {h : Held} {jobId : String}
    (hother : ∀ m ∈ t.messages, m.id = h.id → m.letter.carries jobId = false) :
    (t.acknowledge h).2.carriers jobId = t.carriers jobId := by
  simp only [carriers, acknowledge, List.countP_filter]
  apply List.countP_congr
  intro m hm
  rw [Bool.and_eq_true, Bool.not_eq_true']
  apply and_iff_left_of_imp
  intro hcarries
  rw [Bool.eq_false_iff]
  intro hheld
  rw [isHeld, Bool.and_eq_true, decide_eq_true_eq] at hheld
  rw [hother m hm hheld.1] at hcarries
  cases hcarries

theorem messages_enqueue (t : MessageTable) (queue payload : String) (now : Int) (delay : Span) :
    ∃ m : Message, (t.enqueue queue payload now delay).2.messages = t.messages ++ [m] ∧
      m.letter = ⟨t.nextId, queue, payload⟩ :=
  ⟨_, rfl, rfl⟩

theorem carriers_enqueue (t : MessageTable) (queue payload : String) (now : Int) (delay : Span)
    (jobId : String) :
    (t.enqueue queue payload now delay).2.carriers jobId =
      t.carriers jobId + if Letter.carries jobId ⟨t.nextId, queue, payload⟩ then 1 else 0 := by
  simp [carriers, enqueue, List.countP_append, List.countP_singleton, Message.letter]

/-! ## Numbers of messages -/

/-- No two messages have one number, and the next number is a new one. -/
structure WellNumbered (t : MessageTable) : Prop where
  nodup : (t.messages.map (·.id)).Nodup
  lt : ∀ m ∈ t.messages, m.id < t.nextId

theorem WellNumbered.sameLetters (h : t.WellNumbered) (hsame : SameLetters t t') :
    t'.WellNumbered where
  nodup := hsame.ids ▸ h.nodup
  lt := by
    intro m' hm'
    obtain ⟨m, hm, heq⟩ := hsame.exists_mem hm'
    have hid : m'.id = m.id := (congrArg Letter.id heq).symm
    rw [hid, hsame.nextId]
    exact h.lt m hm

theorem WellNumbered.acknowledge (h : t.WellNumbered) (held : Held) :
    (t.acknowledge held).2.WellNumbered where
  nodup := (List.filter_sublist.map _).nodup h.nodup
  lt := fun m hm => h.lt m (mem_acknowledge.mp hm).1

theorem WellNumbered.enqueue (h : t.WellNumbered) (queue payload : String) (now : Int) (delay : Span) :
    (t.enqueue queue payload now delay).2.WellNumbered := by
  have hnew : ∀ m ∈ t.messages, m.id ≠ t.nextId := fun m hm => Nat.ne_of_lt (h.lt m hm)
  constructor
  · simp only [MessageTable.enqueue, List.map_append, List.map_cons, List.map_nil]
    rw [List.nodup_append]
    refine ⟨h.nodup, List.nodup_singleton _, ?_⟩
    rintro _ hmem _ hlast rfl
    obtain ⟨m, hm, heq⟩ := List.mem_map.mp hmem
    exact hnew m hm (heq.trans (List.mem_singleton.mp hlast))
  · intro m hm
    rcases List.mem_append.mp hm with hm | hm
    · exact Nat.lt_succ_of_lt (h.lt m hm)
    · rw [List.mem_singleton.mp hm]
      exact Nat.lt_succ_self _

end MessageTable
end Syndication
