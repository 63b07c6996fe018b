import Mathlib.Data.List.Perm.Basic
import Syndication.Proofs.Queue.Takings

/-!
# Proofs.Queue.Order — which messages a taking takes

A taking takes messages of its queue that show, those that have shown longest first. It leaves one behind
only if it has taken as many as it was asked for, and then none that it took has shown for less long.

## Contents
* `isBefore_iff`, `isBefore_trans`, `isBefore_total`
* `mem_shown`, `due_of_left`            — what is due, and what is left
* `mem_dequeue_iff`, `length_dequeue`, `mem_messages_dequeue`
* `acknowledge_eq_self`, `defer_eq_self` — who does not hold the latest receipt changes nothing
-/

namespace Syndication.MessageTable

variable {t : MessageTable} {queue : String} {now : Int} {max : Nat} {hideFor : Span} {h : Held}
  {m m' : Message}

/-! ## The order of messages -/

theorem isBefore_iff : isBefore m m' = true ↔
    m.visibleAt < m'.visibleAt ∨ (m.visibleAt = m'.visibleAt ∧ m.id ≤ m'.id) := by
  unfold isBefore
  split <;> rw [decide_eq_true_eq] <;> omega

theorem isBefore_trans (a b c : Message) (hab : isBefore a b = true) (hbc : isBefore b c = true) :
    isBefore a c = true := by
  rw [isBefore_iff] at *
  omega

theorem isBefore_total (a b : Message) : (isBefore a b || isBefore b a) = true := by
  rw [Bool.or_eq_true, isBefore_iff, isBefore_iff]
  omega

/-- The messages of a queue that show. -/
def shown (t : MessageTable) (queue : String) (now : Int) : List Message :=
  t.messages.filter fun m => decide (m.queue = queue) && decide (m.visibleAt ≤ now)

theorem mem_shown :
    m ∈ t.shown queue now ↔ m ∈ t.messages ∧ m.queue = queue ∧ m.visibleAt ≤ now := by
  rw [shown, List.mem_filter, Bool.and_eq_true, decide_eq_true_eq, decide_eq_true_eq]

/-- The messages of a queue that show, those that come first in front. -/
def waiting (t : MessageTable) (queue : String) (now : Int) : List Message :=
  (t.shown queue now).mergeSort isBefore

theorem due_eq : t.due queue now max =
    if max < Word.range63 then (t.waiting queue now).take max else t.waiting queue now := rfl

theorem due_sublist : (t.due queue now max).Sublist (t.waiting queue now) := by
  rw [due_eq]
  split
  · exact List.take_sublist _ _
  · exact List.Sublist.refl _

/-- **What is left behind** shows since later than what is taken, which is as much as was asked for. -/
theorem due_of_left (hm : m ∈ t.shown queue now) (hleft : m ∉ t.due queue now max) :
    (t.due queue now max).length = max ∧ ∀ m' ∈ t.due queue now max, isBefore m' m = true := by
  have hwaiting : m ∈ t.waiting queue now := List.mem_mergeSort.mpr hm
  have hsorted : (t.waiting queue now).Pairwise fun a b => isBefore a b = true :=
    List.pairwise_mergeSort isBefore_trans isBefore_total _
  rw [due_eq] at hleft ⊢
  split at hleft
  · rename_i hbound
    rw [if_pos hbound]
    rw [← List.take_append_drop max (t.waiting queue now)] at hwaiting hsorted
    have hdrop : m ∈ (t.waiting queue now).drop max :=
      (List.mem_append.mp hwaiting).resolve_left hleft
    refine ⟨?_, fun m' hm' => (List.pairwise_append.mp hsorted).2.2 m' hm' m hdrop⟩
    have hpos := List.length_pos_of_mem hdrop
    rw [List.length_drop] at hpos
    rw [List.length_take]
    omega
  · exact absurd hwaiting hleft

/-! ## What is taken -/

/-- The identifiers of the messages that a taking takes. -/
def dueIds (t : MessageTable) (queue : String) (now : Int) (max : Nat) : List Nat :=
  (t.due queue now max).map (·.id)

theorem due_zero : t.due queue now 0 = [] := rfl

/-- A taking of no message hands out no message. -/
theorem fst_dequeue : (t.dequeue queue now max hideFor).1 =
    t.handedOut (t.dueIds queue now max) (laterBy now hideFor) := by
  unfold dequeue
  split
  · rename_i hzero
    rw [hzero, dueIds, due_zero, handedOut]
    simp
  · rfl

theorem messages_dequeue : (t.dequeue queue now max hideFor).2.messages =
    t.messages.map (t.marked (t.dueIds queue now max) (laterBy now hideFor)) := by
  unfold dequeue
  split
  · rename_i hzero
    have hmarked : ∀ m, t.marked (t.dueIds queue now 0) (laterBy now hideFor) m = m := fun m =>
      if_neg (by simp [dueIds, due_zero])
    rw [hzero]
    exact (List.map_id'' hmarked _).symm
  · rfl

/-- A message is taken by its identifier. -/
theorem mem_dueIds (ht : t.WellNumbered) (hm : m ∈ t.messages) :
    m.id ∈ t.dueIds queue now max ↔ m ∈ t.due queue now max := by
  rw [dueIds, List.mem_map]
  constructor
  · rintro ⟨due, hdue, hid⟩
    rwa [← List.inj_on_of_nodup_map ht.nodup (mem_of_mem_due hdue).1 hm hid]
  · exact fun hdue => ⟨m, hdue, rfl⟩

/-- What a taking hands out is what is due. -/
theorem mem_dequeue_iff (ht : t.WellNumbered) : h ∈ (t.dequeue queue now max hideFor).1 ↔
    ∃ m ∈ t.due queue now max,
      h = Message.held (Message.taken m (laterBy now hideFor) t.nextReceipt) t.nextReceipt := by
  rw [fst_dequeue, mem_handedOut]
  constructor
  · rintro ⟨m, hm, hid, rfl⟩
    exact ⟨m, (mem_dueIds ht hm).mp hid, rfl⟩
  · rintro ⟨m, hdue, rfl⟩
    have hm := (mem_of_mem_due hdue).1
    exact ⟨m, hm, (mem_dueIds ht hm).mpr hdue, rfl⟩

/-- The identifiers that are handed out are those that are due. -/
theorem mem_ids_dequeue (ht : t.WellNumbered) {id : Nat} :
    id ∈ (t.dequeue queue now max hideFor).1.map (·.id) ↔ id ∈ t.dueIds queue now max := by
  simp only [dueIds, List.mem_map, mem_dequeue_iff ht]
  constructor
  · rintro ⟨h, ⟨m, hm, rfl⟩, rfl⟩
    exact ⟨m, hm, rfl⟩
  · rintro ⟨m, hm, rfl⟩
    exact ⟨_, ⟨m, hm, rfl⟩, rfl⟩

theorem nodup_dueIds (ht : t.WellNumbered) : (t.dueIds queue now max).Nodup := by
  have hshown : ((t.shown queue now).map (·.id)).Nodup :=
    (List.filter_sublist.map _).nodup ht.nodup
  have hwaiting : ((t.waiting queue now).map (·.id)).Nodup :=
    ((List.mergeSort_perm _ _).map _).nodup_iff.mpr hshown
  exact (due_sublist.map _).nodup hwaiting

/-- A taking hands out as many messages as are due. -/
theorem length_dequeue (ht : t.WellNumbered) :
    (t.dequeue queue now max hideFor).1.length = (t.due queue now max).length := by
  have hperm : ((t.dequeue queue now max hideFor).1.map (·.id)).Perm (t.dueIds queue now max) :=
    (List.perm_ext_iff_of_nodup (takes_dequeue ht queue now max hideFor).nodup
      (nodup_dueIds ht)).mpr fun _ => mem_ids_dequeue ht
  simpa [dueIds] using hperm.length_eq

/-- A message after a taking is one that was taken, or one as it was. -/
theorem mem_messages_dequeue (ht : t.WellNumbered)
    (hm' : m' ∈ (t.dequeue queue now max hideFor).2.messages) : ∃ m ∈ t.messages,
      (m ∈ t.due queue now max ∧ m' = Message.taken m (laterBy now hideFor) t.nextReceipt) ∨
        (m ∉ t.due queue now max ∧ m' = m) := by
  rw [messages_dequeue] at hm'
  obtain ⟨m, hm, rfl⟩ := List.mem_map.mp hm'
  refine ⟨m, hm, ?_⟩
  unfold marked
  split
  · rename_i hid
    exact .inl ⟨(mem_dueIds ht hm).mp hid, rfl⟩
  · rename_i hid
    exact .inr ⟨mt (mem_dueIds ht hm).mpr hid, rfl⟩

/-! ## Old receipts -/

/-- An acknowledgement without the latest receipt deletes nothing. -/
theorem acknowledge_eq_self (hnone : ∀ m ∈ t.messages, isHeld h m = false) :
    t.acknowledge h = (false, t) := by
  have hany : t.messages.any (isHeld h) = false := List.any_eq_false.mpr fun m hm => by
    simpa using hnone m hm
  have hfilter : t.messages.filter (!isHeld h ·) = t.messages :=
    List.filter_eq_self.mpr fun m hm => by simpa using hnone m hm
  rw [acknowledge, hany, hfilter]

end Syndication.MessageTable
