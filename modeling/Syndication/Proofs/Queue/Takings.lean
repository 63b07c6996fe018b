import Syndication.Proofs.Queue
import Syndication.Word

/-!
# Proofs.Queue.Takings — what the count of a message says

A message counts its takings, and a taking that is given back is counted no more. Who takes a message
sees the count in 32 bits; beside it stands here the **number** of the taking, which is the whole count
at that moment. The numbers may repeat, since the count also goes down. But those takings of one
message that were not given back have different numbers, and none of them is above the count.

## Contents
* `countOf`, `timesTaken`
* `Takes`, `takes_dequeue`            — what a taking does to the counts
* `Accounts`                          — what counts and numbers say of each other
* `Accounts.acknowledged`, `Accounts.mailed`, `Accounts.taken`, `Accounts.deferred`, `Accounts.givenBack`
-/

namespace Syndication.MessageTable

variable {t t' : MessageTable} {h : Held}

/-- The count of a message. -/
def countOf (t : MessageTable) (id : Nat) : Nat :=
  match t.messages.find? (·.id = id) with
  | some m => m.dequeueCount
  | none => 0

/-- How many of these takings are of one message. -/
def timesTaken (takings : List Held) (id : Nat) : Nat := takings.countP (·.id = id)

theorem countOf_eq (ht : t.WellNumbered) {m : Message} (hm : m ∈ t.messages) :
    t.countOf m.id = m.dequeueCount := by
  have hsome : (t.messages.find? (·.id = m.id)).isSome = true :=
    List.find?_isSome.mpr ⟨m, hm, by simp⟩
  obtain ⟨m', hm'⟩ := Option.isSome_iff_exists.mp hsome
  have hid : m'.id = m.id := by simpa using List.find?_some hm'
  rw [countOf, hm', List.inj_on_of_nodup_map ht.nodup (List.mem_of_find?_eq_some hm') hm hid]

theorem countOf_eq_zero (ht : t.WellNumbered) {id : Nat} (hid : t.nextId ≤ id) :
    t.countOf id = 0 := by
  have hnone : t.messages.find? (·.id = id) = none := by
    rw [List.find?_eq_none]
    intro m hm heq
    have hlt := ht.lt m hm
    rw [decide_eq_true_eq] at heq
    omega
  rw [countOf, hnone]

theorem timesTaken_append (l l' : List Held) (id : Nat) :
    timesTaken (l ++ l') id = timesTaken l id + timesTaken l' id :=
  List.countP_append

theorem timesTaken_eq_zero {l : List Held} {id : Nat} (hnone : ∀ h ∈ l, h.id ≠ id) :
    timesTaken l id = 0 :=
  List.countP_eq_zero.mpr fun h hh => by simpa using hnone h hh

theorem timesTaken_eq_one {l : List Held} (hnodup : (l.map (·.id)).Nodup) (hh : h ∈ l) :
    timesTaken l h.id = 1 := by
  have hcount : timesTaken l h.id = (l.map (·.id)).count h.id := by
    rw [timesTaken, List.count, List.countP_map]
    rfl
  rw [hcount]
  exact List.count_eq_one_of_mem hnodup (List.mem_map_of_mem hh)

theorem isHeld_iff {m : Message} :
    isHeld h m = true ↔ m.id = h.id ∧ m.receipt = some h.receipt := by
  rw [isHeld, Bool.and_eq_true, decide_eq_true_eq, decide_eq_true_eq]

/-! ## Taking -/

/-- What a taking does: the messages that are taken count one more and have the new receipt, and the
others are as they were. -/
structure Takes (t : MessageTable) (batch : List Held) (t' : MessageTable) : Prop where
  nextId : t'.nextId = t.nextId
  nextReceipt : t.nextReceipt ≤ t'.nextReceipt
  receipt : ∀ h ∈ batch, h.receipt = t.nextReceipt ∧ t.nextReceipt < t'.nextReceipt
  nodup : (batch.map (·.id)).Nodup
  held : ∀ h ∈ batch, ∃ m ∈ t.messages,
    m.id = h.id ∧ h.dequeueCount = (m.dequeueCount + 1) % Word.range32
  message : ∀ m' ∈ t'.messages, ∃ m ∈ t.messages, m.id = m'.id ∧
    (((∃ h ∈ batch, h.id = m.id) ∧ m'.receipt = some t.nextReceipt ∧
        m'.dequeueCount = m.dequeueCount + 1) ∨
      ((∀ h ∈ batch, h.id ≠ m.id) ∧ m'.receipt = m.receipt ∧ m'.dequeueCount = m.dequeueCount))

theorem Takes.nothing (t : MessageTable) : Takes t [] t where
  nextId := rfl
  nextReceipt := Nat.le_refl _
  receipt := fun _ hh => nomatch hh
  nodup := List.nodup_nil
  held := fun _ hh => nomatch hh
  message := fun m hm => ⟨m, hm, rfl, .inr ⟨fun _ hh => (nomatch hh), rfl, rfl⟩⟩

/-- A message after a taking of the messages with these numbers. -/
def marked (t : MessageTable) (ids : List Nat) (hiddenUntil : Int) (m : Message) : Message :=
  if m.id ∈ ids then Message.taken m hiddenUntil t.nextReceipt else m

theorem marked_id (ids : List Nat) (hiddenUntil : Int) (m : Message) :
    (t.marked ids hiddenUntil m).id = m.id := by
  unfold marked
  split <;> rfl

/-- What a taking of the messages with these numbers hands out. -/
def handedOut (t : MessageTable) (ids : List Nat) (hiddenUntil : Int) : List Held :=
  ((t.messages.map (t.marked ids hiddenUntil)).filter (·.id ∈ ids)).map (Message.held · t.nextReceipt)

/-- What is handed out are the messages with these numbers, as they are once they were taken. -/
theorem mem_handedOut {ids : List Nat} {hiddenUntil : Int} :
    h ∈ t.handedOut ids hiddenUntil ↔ ∃ m ∈ t.messages, m.id ∈ ids ∧
      h = Message.held (Message.taken m hiddenUntil t.nextReceipt) t.nextReceipt := by
  unfold handedOut
  constructor
  · intro hh
    obtain ⟨m', hm', rfl⟩ := List.mem_map.mp hh
    rw [List.mem_filter, decide_eq_true_eq] at hm'
    obtain ⟨hm', hid⟩ := hm'
    obtain ⟨m, hm, rfl⟩ := List.mem_map.mp hm'
    rw [marked_id] at hid
    exact ⟨m, hm, hid, by rw [marked, if_pos hid]⟩
  · rintro ⟨m, hm, hid, rfl⟩
    have hmarked : t.marked ids hiddenUntil m = Message.taken m hiddenUntil t.nextReceipt := if_pos hid
    rw [← hmarked]
    refine List.mem_map_of_mem (List.mem_filter.mpr ⟨List.mem_map_of_mem hm, ?_⟩)
    rw [marked_id, decide_eq_true_eq]
    exact hid

theorem takes_handedOut (ht : t.WellNumbered) (ids : List Nat) (hiddenUntil : Int) :
    Takes t (t.handedOut ids hiddenUntil) { t with
      messages := t.messages.map (t.marked ids hiddenUntil), nextReceipt := t.nextReceipt + 1 } where
  nextId := rfl
  nextReceipt := Nat.le_succ _
  receipt := by
    intro h hh
    obtain ⟨m, -, -, rfl⟩ := mem_handedOut.mp hh
    exact ⟨rfl, Nat.lt_succ_self _⟩
  nodup := by
    have hids : (t.messages.map (t.marked ids hiddenUntil)).map (·.id) = t.messages.map (·.id) := by
      rw [List.map_map]
      exact List.map_congr_left fun m _ => marked_id ids hiddenUntil m
    rw [handedOut, List.map_map]
    exact (List.filter_sublist.map _).nodup (hids ▸ ht.nodup)
  held := by
    intro h hh
    obtain ⟨m, hm, -, rfl⟩ := mem_handedOut.mp hh
    exact ⟨m, hm, rfl, rfl⟩
  message := by
    intro m' hm'
    obtain ⟨m, hm, rfl⟩ := List.mem_map.mp hm'
    refine ⟨m, hm, (marked_id ids hiddenUntil m).symm, ?_⟩
    by_cases hid : m.id ∈ ids
    · have hmarked : t.marked ids hiddenUntil m = Message.taken m hiddenUntil t.nextReceipt :=
        if_pos hid
      rw [hmarked]
      exact .inl ⟨⟨_, mem_handedOut.mpr ⟨m, hm, hid, rfl⟩, rfl⟩, rfl, rfl⟩
    · have hmarked : t.marked ids hiddenUntil m = m := if_neg hid
      rw [hmarked]
      refine .inr ⟨?_, rfl, rfl⟩
      intro h hh heq
      obtain ⟨other, -, hother, rfl⟩ := mem_handedOut.mp hh
      exact hid (heq ▸ hother)

theorem takes_dequeue (ht : t.WellNumbered) (queue : String) (now : Int) (max : Nat) (hideFor : Span) :
    Takes t (t.dequeue queue now max hideFor).1 (t.dequeue queue now max hideFor).2 := by
  unfold dequeue
  split
  · exact .nothing t
  · exact takes_handedOut ht _ _

/-! ## Counts and numbers -/

/-- **The accounts of a queue**: what its counts say of the takings so far, where each taking has a
number, and of those that were given back. -/
structure Accounts (initial : Nat → Nat) (number : Held → Nat) (t : MessageTable)
    (takings returned : List Held) : Prop where
  wellNumbered : t.WellNumbered
  unused : ∀ id, t.nextId ≤ id → initial id = 0
  known : ∀ h ∈ takings, h.id < t.nextId ∧ h.receipt < t.nextReceipt
  wereTaken : ∀ h ∈ returned, h ∈ takings
  nodup : takings.Nodup
  /-- Who takes a message sees the number in 32 bits. -/
  shown : ∀ h ∈ takings, h.dequeueCount = number h % Word.range32
  pos : ∀ h ∈ takings, 0 < number h
  bound : ∀ h ∈ takings, number h ≤ initial h.id + timesTaken takings h.id
  /-- Takings that were not given back have different numbers. -/
  distinct : ∀ h ∈ takings, ∀ h' ∈ takings, h ∉ returned → h' ∉ returned → h'.id = h.id →
    number h' = number h → h' = h
  below : ∀ m ∈ t.messages, ∀ h ∈ takings, h ∉ returned → h.id = m.id → number h ≤ m.dequeueCount
  /-- The latest taking has the highest number, unless it was given back. -/
  latest : ∀ m ∈ t.messages, ∀ h ∈ takings, h ∉ returned → isHeld h m = true →
    number h = m.dequeueCount
  sum : ∀ m ∈ t.messages,
    m.dequeueCount + timesTaken returned m.id = initial m.id + timesTaken takings m.id

/-- Nothing was taken yet. -/
theorem Accounts.start (ht : t.WellNumbered) : Accounts t.countOf (fun _ => 0) t [] [] where
  wellNumbered := ht
  unused := fun _ => countOf_eq_zero ht
  known := fun _ hh => nomatch hh
  wereTaken := fun _ hh => nomatch hh
  nodup := List.nodup_nil
  shown := fun _ hh => nomatch hh
  pos := fun _ hh => nomatch hh
  bound := fun _ hh => nomatch hh
  distinct := fun _ hh => nomatch hh
  below := fun _ _ _ hh => nomatch hh
  latest := fun _ _ _ hh => nomatch hh
  sum := fun _ hm => congrArg (· + 0) (countOf_eq ht hm).symm

namespace Accounts

variable {initial : Nat → Nat} {number : Held → Nat} {takings returned : List Held}

/-- **Kept accounts**: messages may go, new ones may come, and others may show at another time. -/
theorem kept (ha : Accounts initial number t takings returned) (ht' : t'.WellNumbered)
    (hid : t.nextId ≤ t'.nextId) (hreceipt : t'.nextReceipt = t.nextReceipt)
    (hmessages : ∀ m' ∈ t'.messages,
      (∃ m ∈ t.messages, m.id = m'.id ∧ m.receipt = m'.receipt ∧ m.dequeueCount = m'.dequeueCount) ∨
        (t.nextId ≤ m'.id ∧ m'.dequeueCount = 0)) :
    Accounts initial number t' takings returned where
  wellNumbered := ht'
  unused := fun id hle => ha.unused id (Nat.le_trans hid hle)
  known := fun h hh => ⟨Nat.lt_of_lt_of_le (ha.known h hh).1 hid, hreceipt ▸ (ha.known h hh).2⟩
  wereTaken := ha.wereTaken
  nodup := ha.nodup
  shown := ha.shown
  pos := ha.pos
  bound := ha.bound
  distinct := ha.distinct
  below := by
    intro m' hm' h hh hnot heq
    rcases hmessages m' hm' with ⟨m, hm, hsame, -, hcount⟩ | ⟨hnew, -⟩
    · rw [← hcount]
      exact ha.below m hm h hh hnot (heq.trans hsame.symm)
    · have hlt := (ha.known h hh).1
      omega
  latest := by
    intro m' hm' h hh hnot hheld
    rw [isHeld_iff] at hheld
    rcases hmessages m' hm' with ⟨m, hm, hsame, hreceipt, hcount⟩ | ⟨hnew, -⟩
    · rw [← hcount]
      exact ha.latest m hm h hh hnot
        (isHeld_iff.mpr ⟨hsame.trans hheld.1, hreceipt.trans hheld.2⟩)
    · have hlt := (ha.known h hh).1
      omega
  sum := by
    intro m' hm'
    rcases hmessages m' hm' with ⟨m, hm, hsame, -, hcount⟩ | ⟨hnew, hcount⟩
    · rw [← hcount, ← hsame]
      exact ha.sum m hm
    · -- a new message was never taken
      have hneTaken : ∀ h ∈ takings, h.id ≠ m'.id := fun h hh => by
        have hlt := (ha.known h hh).1
        omega
      have hneBack : ∀ h ∈ returned, h.id ≠ m'.id := fun h hh => hneTaken h (ha.wereTaken h hh)
      rw [hcount, ha.unused m'.id hnew, timesTaken_eq_zero hneTaken, timesTaken_eq_zero hneBack]

/-- A deletion keeps the accounts of the messages that are left. -/
theorem acknowledged (ha : Accounts initial number t takings returned) (h : Held) :
    Accounts initial number (t.acknowledge h).2 takings returned := by
  refine ha.kept (ha.wellNumbered.acknowledge h) (Nat.le_refl _) rfl ?_
  intro m' hm'
  exact .inl ⟨m', (mem_acknowledge.mp hm').1, rfl, rfl, rfl⟩

/-- A new message has been taken no times. -/
theorem mailed (ha : Accounts initial number t takings returned) (queue payload : String) (now : Int)
    (delay : Span) : Accounts initial number (t.enqueue queue payload now delay).2 takings returned := by
  refine ha.kept (ha.wellNumbered.enqueue queue payload now delay) (Nat.le_succ _) rfl ?_
  intro m' hm'
  rcases List.mem_append.mp hm' with hold | hnew
  · exact .inl ⟨m', hold, rfl, rfl, rfl⟩
  · rw [List.mem_singleton.mp hnew]
    exact .inr ⟨Nat.le_refl _, rfl⟩

/-! ## After a taking -/

/-- The number of a taking that is the first with its receipt, and else the number it had. -/
def numbered (t : MessageTable) (number : Held → Nat) (h : Held) : Nat :=
  if h.receipt = t.nextReceipt then t.countOf h.id + 1 else number h

section Taken

variable (ha : Accounts initial number t takings returned) {batch : List Held}
include ha

theorem numbered_old (hh : h ∈ takings) : numbered t number h = number h :=
  if_neg (Nat.ne_of_lt (ha.known h hh).2)

theorem numbered_new (htakes : Takes t batch t') (hh : h ∈ batch) {m : Message}
    (hm : m ∈ t.messages) (hid : m.id = h.id) : numbered t number h = m.dequeueCount + 1 := by
  rw [numbered, if_pos (htakes.receipt h hh).1, ← hid, countOf_eq ha.wellNumbered hm]

/-- The number of a taking is above those of the takings before it. -/
theorem number_lt (htakes : Takes t batch t') (hh : h ∈ takings) (hnot : h ∉ returned) {h' : Held}
    (hh' : h' ∈ batch) (hid : h'.id = h.id) : number h < numbered t number h' := by
  obtain ⟨m, hm, hmid, -⟩ := htakes.held h' hh'
  have hbelow := ha.below m hm h hh hnot (hid.symm.trans hmid.symm)
  rw [numbered_new ha htakes hh' hm hmid]
  exact Nat.lt_succ_of_le hbelow

theorem taken_distinct (htakes : Takes t batch t') : ∀ h ∈ takings ++ batch, ∀ h' ∈ takings ++ batch,
    h ∉ returned → h' ∉ returned → h'.id = h.id → numbered t number h' = numbered t number h →
      h' = h := by
  intro h hh h' hh' hnot hnot' hid hnumber
  rcases List.mem_append.mp hh with hold | hnew <;> rcases List.mem_append.mp hh' with hold' | hnew'
  · rw [numbered_old ha hold, numbered_old ha hold'] at hnumber
    exact ha.distinct h hold h' hold' hnot hnot' hid hnumber
  · have hlt := number_lt ha htakes hold hnot hnew' hid
    rw [numbered_old ha hold] at hnumber
    omega
  · have hlt := number_lt ha htakes hold' hnot' hnew hid.symm
    rw [numbered_old ha hold'] at hnumber
    omega
  · -- one taking takes a message once
    exact List.inj_on_of_nodup_map htakes.nodup hnew' hnew hid

theorem taken_bound (htakes : Takes t batch t') : ∀ h ∈ takings ++ batch,
    numbered t number h ≤ initial h.id + timesTaken (takings ++ batch) h.id := by
  intro h hh
  rw [timesTaken_append]
  rcases List.mem_append.mp hh with hold | hnew
  · rw [numbered_old ha hold]
    have hbound := ha.bound h hold
    omega
  · obtain ⟨m, hm, hid, -⟩ := htakes.held h hnew
    have hsum := ha.sum m hm
    rw [numbered_new ha htakes hnew hm hid, timesTaken_eq_one htakes.nodup hnew, ← hid]
    omega

theorem taken_below (htakes : Takes t batch t') : ∀ m ∈ t'.messages, ∀ h ∈ takings ++ batch,
    h ∉ returned → h.id = m.id → numbered t number h ≤ m.dequeueCount := by
  intro m' hm' h hh hnot hid
  obtain ⟨m, hm, hmid, hcase⟩ := htakes.message m' hm'
  rcases List.mem_append.mp hh with hold | hnew
  · have hbelow := ha.below m hm h hold hnot (hid.trans hmid.symm)
    rw [numbered_old ha hold]
    rcases hcase with ⟨-, -, hcount⟩ | ⟨-, -, hcount⟩ <;> omega
  · rw [numbered_new ha htakes hnew hm (hmid.trans hid.symm)]
    rcases hcase with ⟨-, -, hcount⟩ | ⟨hother, -, -⟩
    · exact Nat.le_of_eq hcount.symm
    · exact absurd (hid.trans hmid.symm) (hother h hnew)

theorem taken_latest (htakes : Takes t batch t') : ∀ m ∈ t'.messages, ∀ h ∈ takings ++ batch,
    h ∉ returned → isHeld h m = true → numbered t number h = m.dequeueCount := by
  intro m' hm' h hh hnot hheld
  obtain ⟨hid, hreceipt⟩ := isHeld_iff.mp hheld
  obtain ⟨m, hm, hmid, hcase⟩ := htakes.message m' hm'
  rcases List.mem_append.mp hh with hold | hnew
  · rw [numbered_old ha hold]
    rcases hcase with ⟨-, hmarked, -⟩ | ⟨-, hsame, hcount⟩
    · -- the message has a newer receipt than an old taking
      rw [hmarked, Option.some.injEq] at hreceipt
      have hlt := (ha.known h hold).2
      omega
    · rw [hcount]
      exact ha.latest m hm h hold hnot (isHeld_iff.mpr ⟨hmid.trans hid, hsame ▸ hreceipt⟩)
  · rw [numbered_new ha htakes hnew hm (hmid.trans hid)]
    rcases hcase with ⟨-, -, hcount⟩ | ⟨hother, -, -⟩
    · exact hcount.symm
    · exact absurd (hmid.trans hid).symm (hother h hnew)

theorem taken_sum (htakes : Takes t batch t') : ∀ m ∈ t'.messages,
    m.dequeueCount + timesTaken returned m.id =
      initial m.id + timesTaken (takings ++ batch) m.id := by
  intro m' hm'
  obtain ⟨m, hm, hmid, hcase⟩ := htakes.message m' hm'
  have hsum := ha.sum m hm
  rw [timesTaken_append, ← hmid]
  rcases hcase with ⟨⟨h, hh, hid⟩, -, hcount⟩ | ⟨hother, -, hcount⟩
  · have hone := timesTaken_eq_one htakes.nodup hh
    rw [hid] at hone
    omega
  · have hzero := timesTaken_eq_zero hother
    omega

/-- **A taking** keeps the accounts, each message that was taken with a number of its own. -/
theorem taken (ht' : t'.WellNumbered) (htakes : Takes t batch t') :
    Accounts initial (numbered t number) t' (takings ++ batch) returned where
  wellNumbered := ht'
  unused := htakes.nextId ▸ ha.unused
  known := by
    intro h hh
    rw [htakes.nextId]
    rcases List.mem_append.mp hh with hold | hnew
    · exact ⟨(ha.known h hold).1, Nat.lt_of_lt_of_le (ha.known h hold).2 htakes.nextReceipt⟩
    · obtain ⟨m, hm, hid, -⟩ := htakes.held h hnew
      obtain ⟨hreceipt, hlt⟩ := htakes.receipt h hnew
      exact ⟨hid ▸ ha.wellNumbered.lt m hm, hreceipt ▸ hlt⟩
  wereTaken := fun h hh => List.mem_append_left _ (ha.wereTaken h hh)
  nodup := by
    refine ha.nodup.append htakes.nodup.of_map ?_
    intro h hold hnew
    have hlt := (ha.known h hold).2
    rw [(htakes.receipt h hnew).1] at hlt
    exact Nat.lt_irrefl _ hlt
  shown := by
    intro h hh
    rcases List.mem_append.mp hh with hold | hnew
    · rw [numbered_old ha hold]
      exact ha.shown h hold
    · obtain ⟨m, hm, hid, hcount⟩ := htakes.held h hnew
      rw [numbered_new ha htakes hnew hm hid]
      exact hcount
  pos := by
    intro h hh
    rcases List.mem_append.mp hh with hold | hnew
    · rw [numbered_old ha hold]
      exact ha.pos h hold
    · obtain ⟨m, hm, hid, -⟩ := htakes.held h hnew
      rw [numbered_new ha htakes hnew hm hid]
      exact Nat.succ_pos _
  bound := taken_bound ha htakes
  distinct := taken_distinct ha htakes
  below := taken_below ha htakes
  latest := taken_latest ha htakes
  sum := taken_sum ha htakes

end Taken

/-! ## After a deferral -/

/-- A deferral that counts, or that comes too late, keeps the accounts. -/
theorem deferred (ha : Accounts initial number t takings returned) (h : Held) (now : Int)
    (delay : Span) {counts : Bool} (hkeeps : counts = true ∨ t.messages.any (isHeld h) = false) :
    Accounts initial number (t.defer h now delay counts).2 takings returned := by
  refine ha.kept (ha.wellNumbered.sameLetters (sameLetters_defer h now delay counts))
    (Nat.le_refl _) rfl ?_
  intro m' hm'
  left
  obtain ⟨m, hm, rfl⟩ := List.mem_map.mp hm'
  refine ⟨m, hm, ?_⟩
  split
  · rename_i hheld
    rcases hkeeps with rfl | hnone
    · exact ⟨rfl, rfl, rfl⟩
    · exact absurd hheld (List.any_eq_false.mp hnone m hm)
  · exact ⟨rfl, rfl, rfl⟩

/-- When a taking is given back, the message that is held counts one less, and the others are as they
were. -/
theorem message_givenBack (ht : t.WellNumbered) {held : Message} (hmem : held ∈ t.messages)
    (hheld : isHeld h held = true) (now : Int) (delay : Span) :
    ∀ m' ∈ (t.defer h now delay false).2.messages, ∃ m ∈ t.messages,
      m.id = m'.id ∧ m.receipt = m'.receipt ∧
        ((m = held ∧ m'.dequeueCount = m.dequeueCount - 1) ∨
          (m.id ≠ h.id ∧ m'.dequeueCount = m.dequeueCount)) := by
  have honly : ∀ m ∈ t.messages, m.id = h.id → m = held := fun m hm hid =>
    List.inj_on_of_nodup_map ht.nodup hm hmem (hid.trans (isHeld_iff.mp hheld).1.symm)
  intro m' hm'
  obtain ⟨m, hm, rfl⟩ := List.mem_map.mp hm'
  refine ⟨m, hm, ?_⟩
  split
  · rename_i his
    exact ⟨rfl, rfl, .inl ⟨honly m hm (isHeld_iff.mp his).1, rfl⟩⟩
  · rename_i hisNot
    exact ⟨rfl, rfl, .inr ⟨fun hid => hisNot (honly m hm hid ▸ hheld), rfl⟩⟩

section GivenBack

variable (ha : Accounts initial number t takings returned) (hh : h ∈ takings) (hnot : h ∉ returned)
  {held : Message} (hmem : held ∈ t.messages) (hheld : isHeld h held = true)
include ha hh hnot hheld

/-- Another taking of the message that was not given back has another number. -/
theorem number_ne {g : Held} (hg : g ∈ takings) (hnotG : g ∉ returned) (hne : g ≠ h)
    (hid : g.id = held.id) : number g ≠ number h := fun hnumber =>
  hne (ha.distinct h hh g hg hnot hnotG (hid.trans (isHeld_iff.mp hheld).1) hnumber)

variable (now : Int) (delay : Span)
include hmem

theorem givenBack_below : ∀ m ∈ (t.defer h now delay false).2.messages, ∀ g ∈ takings,
    g ∉ returned ++ [h] → g.id = m.id → number g ≤ m.dequeueCount := by
  intro m' hm' g hg hnotG hid
  obtain ⟨hnotG, hne⟩ : g ∉ returned ∧ g ≠ h := by simpa using hnotG
  obtain ⟨m, hm, hmid, -, hcase⟩ := message_givenBack ha.wellNumbered hmem hheld now delay m' hm'
  have hid := hid.trans hmid.symm
  have hbelow := ha.below m hm g hg hnotG hid
  rcases hcase with ⟨rfl, hcount⟩ | ⟨-, hcount⟩
  · -- the highest number is that of the taking that is given back
    have hhighest := ha.latest m hm h hh hnot hheld
    have hother := number_ne ha hh hnot hheld hg hnotG hne hid
    omega
  · omega

theorem givenBack_latest : ∀ m ∈ (t.defer h now delay false).2.messages, ∀ g ∈ takings,
    g ∉ returned ++ [h] → isHeld g m = true → number g = m.dequeueCount := by
  intro m' hm' g hg hnotG hheldG
  obtain ⟨hnotG, hne⟩ : g ∉ returned ∧ g ≠ h := by simpa using hnotG
  obtain ⟨hid, hreceipt⟩ := isHeld_iff.mp hheldG
  obtain ⟨m, hm, hmid, hsame, hcase⟩ := message_givenBack ha.wellNumbered hmem hheld now delay m' hm'
  have hlatest := ha.latest m hm g hg hnotG (isHeld_iff.mpr ⟨hmid.trans hid, hsame.trans hreceipt⟩)
  rcases hcase with ⟨rfl, -⟩ | ⟨-, hcount⟩
  · have hhighest := ha.latest m hm h hh hnot hheld
    have hother := number_ne ha hh hnot hheld hg hnotG hne (hmid.trans hid).symm
    exact absurd (hlatest.trans hhighest.symm) hother
  · rw [hlatest, hcount]

theorem givenBack_sum : ∀ m ∈ (t.defer h now delay false).2.messages,
    m.dequeueCount + timesTaken (returned ++ [h]) m.id = initial m.id + timesTaken takings m.id := by
  intro m' hm'
  obtain ⟨m, hm, hmid, -, hcase⟩ := message_givenBack ha.wellNumbered hmem hheld now delay m' hm'
  have hsum := ha.sum m hm
  rw [timesTaken_append, ← hmid]
  rcases hcase with ⟨rfl, hcount⟩ | ⟨hne, hcount⟩
  · have hone : timesTaken [h] h.id = 1 := by simp [timesTaken]
    rw [← (isHeld_iff.mp hheld).1] at hone
    have hhighest := ha.latest m hm h hh hnot hheld
    have hpos := ha.pos h hh
    omega
  · have hzero : timesTaken [h] m.id = 0 :=
      timesTaken_eq_zero fun g hg => List.mem_singleton.mp hg ▸ fun heq => hne heq.symm
    omega

end GivenBack

/-- **A taking given back** lowers the count by one, and its number may be given again. -/
theorem givenBack (ha : Accounts initial number t takings returned) (hh : h ∈ takings)
    (hnot : h ∉ returned) (hany : t.messages.any (isHeld h) = true) (now : Int) (delay : Span) :
    Accounts initial number (t.defer h now delay false).2 takings (returned ++ [h]) := by
  obtain ⟨held, hmem, hheld⟩ := List.any_eq_true.mp hany
  exact {
    wellNumbered := ha.wellNumbered.sameLetters (sameLetters_defer h now delay false)
    unused := ha.unused
    known := ha.known
    wereTaken := fun g hg => (List.mem_append.mp hg).elim (ha.wereTaken g) fun hlast =>
      List.mem_singleton.mp hlast ▸ hh
    nodup := ha.nodup
    shown := ha.shown
    pos := ha.pos
    bound := ha.bound
    distinct := fun g hg g' hg' hnotG hnotG' => ha.distinct g hg g' hg'
      (fun hback => hnotG (List.mem_append_left _ hback))
      (fun hback => hnotG' (List.mem_append_left _ hback))
    below := givenBack_below ha hh hnot hmem hheld now delay
    latest := givenBack_latest ha hh hnot hmem hheld now delay
    sum := givenBack_sum ha hh hnot hmem hheld now delay }

end Accounts
end Syndication.MessageTable
