import Syndication.Proofs.Queue.Traffic

/-!
# Proofs.Queue.Counts — what the count of a message leaves out

A taking that is given back is to count no more. But a message keeps its receipt when it is deferred, so
who holds it may give one taking back again, and then the count goes down by another taking, as long as
there is one that counts. So a count is never too high: it is the number of the takings that were not
given back, less those that were taken off for a taking that had been given back before.

## Contents
* `Books`, `after`, `ofCalls`       — traffic, and what was given back
* `kept`, `lost`                    — what should count, and what was taken off it
* `Exact`, `exact_after`, `exact_ofCalls`
* `ofCalls_counts`, `ofCalls_counts_sample`
* `ofCalls_countsLow`
-/

namespace Syndication.MessageTable

/-- Traffic, and what was given back in it, first things first. -/
structure Books where
  traffic : Traffic
  /-- What was deferred with success and was not to count. -/
  givenBack : List Held := []
  /-- What had been given back before, and was taken off the count again. -/
  doubled : List Held := []

namespace Books

/-- The two are of one taking: they have one message and one receipt. -/
def IsSame (d h : Held) : Prop := d.id = h.id ∧ d.receipt = h.receipt

instance (d h : Held) : Decidable (IsSame d h) := inferInstanceAs (Decidable (_ ∧ _))

/-- The taking was given back: its holder made a deferral that was not to count, while the receipt was
that of the message. -/
def WasGivenBack (b : Books) (h : Held) : Prop := ∃ d ∈ b.givenBack, IsSame d h

instance (b : Books) (h : Held) : Decidable (b.WasGivenBack h) :=
  inferInstanceAs (Decidable (∃ d ∈ b.givenBack, IsSame d h))

theorem IsSame.symm {d h : Held} (hsame : IsSame d h) : IsSame h d := ⟨hsame.1.symm, hsame.2.symm⟩

theorem IsSame.trans {d h g : Held} (hsame : IsSame d h) (hsame' : IsSame h g) : IsSame d g :=
  ⟨hsame.1.trans hsame'.1, hsame.2.trans hsame'.2⟩

/-- Who holds a message by one taking holds it by any record of that taking. -/
theorem IsSame.isHeld_eq {h g : Held} (hsame : IsSame h g) (m : Message) : isHeld h m = isHeld g m := by
  rw [isHeld, isHeld, hsame.1, hsame.2]

/-- Who holds a message has the one taking that has its receipt. -/
theorem isSame_of_isHeld {h g : Held} {m : Message} (hh : isHeld h m = true) (hg : isHeld g m = true) :
    IsSame h g :=
  ⟨(isHeld_iff.mp hh).1.symm.trans (isHeld_iff.mp hg).1,
    Option.some.inj ((isHeld_iff.mp hh).2.symm.trans (isHeld_iff.mp hg).2)⟩

theorem IsSame.wasGivenBack_iff {h g : Held} (hsame : IsSame h g) (b : Books) :
    b.WasGivenBack h ↔ b.WasGivenBack g :=
  ⟨fun ⟨d, hd, hdh⟩ => ⟨d, hd, hdh.trans hsame⟩, fun ⟨d, hd, hdg⟩ => ⟨d, hd, hdg.trans hsame.symm⟩⟩

/-- How many takings of a message were not given back. -/
def kept (b : Books) (id : Nat) : Nat :=
  b.traffic.held.countP fun h => decide (h.id = id) && !decide (b.WasGivenBack h)

/-- How many takings of a message were taken off its count for one that had been given back before. -/
def lost (b : Books) (id : Nat) : Nat := timesTaken b.doubled id

/-- No taking of a message was given back twice. -/
def GivesBackOnce (b : Books) (id : Nat) : Prop :=
  ∀ h ∈ b.traffic.held, h.id = id → b.givenBack.countP (IsSame · h) ≤ 1

/-- After one more call. A taking that is given back once more costs another one of the message, if one is
left that counts. -/
def after (b : Books) (c : Call) : Books :=
  match c with
  | .defer h delay false =>
    if (b.traffic.table.defer h b.traffic.now delay false).1 then
      { traffic := b.traffic.after c
        givenBack := b.givenBack ++ [h]
        doubled := b.doubled ++
          if b.WasGivenBack h ∧ b.lost h.id < b.kept h.id then [h] else [] }
    else { b with traffic := b.traffic.after c }
  | _ => { b with traffic := b.traffic.after c }

/-- Calls on an empty table, from a reading of the clock. -/
def ofCalls (start : Int) (calls : List Call) : Books := calls.foldl after { traffic := { now := start } }

@[simp] theorem traffic_after (b : Books) (c : Call) : (b.after c).traffic = b.traffic.after c := by
  unfold after
  split
  · split <;> rfl
  · rfl

theorem ofCalls_concat (start : Int) (calls : List Call) (c : Call) :
    ofCalls start (calls ++ [c]) = (ofCalls start calls).after c := by
  rw [ofCalls, List.foldl_append]
  rfl

theorem traffic_ofCalls (start : Int) (calls : List Call) :
    (ofCalls start calls).traffic = Traffic.ofCalls start calls := by
  induction calls using List.reverseRecOn with
  | nil => rfl
  | append_singleton calls c ih =>
    rw [ofCalls_concat, traffic_after, ih, Traffic.ofCalls, Traffic.ofCalls, List.foldl_append]
    rfl

/-! ## The invariant -/

/-- **The invariant of books**: a count is what should count less what was taken off it, and the taking
whose receipt a message has counts until it is given back. -/
structure Exact (b : Books) : Prop where
  inv : b.traffic.Inv
  sum : ∀ m ∈ b.traffic.table.messages, m.dequeueCount + b.lost m.id = b.kept m.id
  pos : ∀ m ∈ b.traffic.table.messages, ∀ h ∈ b.traffic.held, isHeld h m = true →
    ¬ b.WasGivenBack h → 0 < m.dequeueCount
  /-- What was given back had been taken. -/
  known : ∀ d ∈ b.givenBack, ∃ h ∈ b.traffic.held, IsSame d h
  /-- What was taken off the count twice was given back twice. -/
  twice : ∀ d ∈ b.doubled, 2 ≤ b.givenBack.countP (IsSame · d)

variable {b : Books} {h : Held} {m : Message}

theorem exact_start (start : Int) : Exact { traffic := { now := start } } where
  inv := Traffic.inv_start start
  sum := fun _ hm => nomatch hm
  pos := fun _ hm => nomatch hm
  known := fun _ hd => nomatch hd
  twice := fun _ hd => nomatch hd

theorem Exact.exists_of_doubled (hb : Exact b) {d : Held} (hd : d ∈ b.doubled) :
    ∃ h ∈ b.traffic.held, h.id = d.id := by
  have htwice := hb.twice d hd
  obtain ⟨g, hg, hsame⟩ := List.countP_pos_iff.mp (Nat.lt_of_lt_of_le Nat.zero_lt_two htwice)
  obtain ⟨h, hh, hid, -⟩ := hb.known g hg
  exact ⟨h, hh, hid.symm.trans (of_decide_eq_true hsame).1⟩

/-- A message whose number is new has no takings. -/
theorem Exact.kept_eq_zero (hb : Exact b) {id : Nat} (hid : b.traffic.table.nextId ≤ id) :
    b.kept id = 0 := by
  refine List.countP_eq_zero.mpr fun h hh => ?_
  have hlt := hb.inv.held_lt hh
  have hne : h.id ≠ id := by omega
  simp [hne]

theorem Exact.lost_eq_zero (hb : Exact b) {id : Nat} (hid : b.traffic.table.nextId ≤ id) :
    b.lost id = 0 := by
  refine timesTaken_eq_zero fun d hd heq => ?_
  obtain ⟨h, hh, hsame⟩ := hb.exists_of_doubled hd
  have hlt := hb.inv.held_lt hh
  omega

/-! ### Messages come and go -/

/-- Messages that go, that come without having been taken, or that show at another time. -/
theorem Exact.sameTakings (hb : Exact b) {b' : Books} (hinv : b'.traffic.Inv)
    (hheld : b'.traffic.held = b.traffic.held) (hgiven : b'.givenBack = b.givenBack)
    (hdoubled : b'.doubled = b.doubled)
    (hmessages : ∀ m' ∈ b'.traffic.table.messages,
      (∃ m ∈ b.traffic.table.messages, m'.id = m.id ∧ m'.receipt = m.receipt ∧
        m'.dequeueCount = m.dequeueCount) ∨
      (b.traffic.table.nextId ≤ m'.id ∧ m'.dequeueCount = 0)) : Exact b' := by
  have hback : ∀ h, b'.WasGivenBack h ↔ b.WasGivenBack h := by
    intro h
    rw [WasGivenBack, hgiven, WasGivenBack]
  have hkept : ∀ id, b'.kept id = b.kept id := by
    intro id
    simp only [kept, hheld, hback]
  have hlost : ∀ id, b'.lost id = b.lost id := by
    intro id
    rw [lost, hdoubled, lost]
  refine ⟨hinv, ?_, ?_, hgiven ▸ hheld ▸ hb.known, hgiven ▸ hdoubled ▸ hb.twice⟩
  · intro m' hm'
    rw [hkept, hlost]
    rcases hmessages m' hm' with ⟨m, hm, hid, -, hcount⟩ | ⟨hnew, hcount⟩
    · rw [hid, hcount]
      exact hb.sum m hm
    · rw [hcount, hb.kept_eq_zero hnew, hb.lost_eq_zero hnew]
  · intro m' hm' h hh hhelds hnot
    rw [hheld] at hh
    rw [hback] at hnot
    obtain ⟨hid', hreceipt'⟩ := isHeld_iff.mp hhelds
    rcases hmessages m' hm' with ⟨m, hm, hid, hreceipt, hcount⟩ | ⟨hnew, -⟩
    · rw [hcount]
      exact hb.pos m hm h hh (isHeld_iff.mpr ⟨hid.symm.trans hid', hreceipt.symm.trans hreceipt'⟩) hnot
    · have hlt := hb.inv.held_lt hh
      omega

/-! ### One more taking -/

/-- What is handed out was not given back: its receipt is a new one. -/
theorem Exact.not_givenBack (hb : Exact b) {h : Held} (hreceipt : h.receipt = b.traffic.table.nextReceipt) :
    ¬ b.WasGivenBack h := by
  rintro ⟨d, hd, -, hsame⟩
  obtain ⟨g, hg, -, hsame'⟩ := hb.known d hd
  have hlt := hb.inv.receipts g hg
  omega

theorem Exact.taken (hb : Exact b) (queue : String) (max : Nat) (hideFor : Span) :
    Exact (b.after (.dequeue queue max hideFor)) := by
  have htakes := takes_dequeue hb.inv.numbered queue b.traffic.now max hideFor
  -- a taking that is just made has a receipt that nobody has given back
  have hkept : ∀ id, (b.after (.dequeue queue max hideFor)).kept id =
      b.kept id + timesTaken (b.traffic.table.dequeue queue b.traffic.now max hideFor).1 id := by
    intro id
    rw [kept, traffic_after, Traffic.held_taken, List.countP_append]
    refine congrArg (b.kept id + ·) (List.countP_congr fun h hh => ?_)
    have hnot := hb.not_givenBack (htakes.receipt h hh).1
    have hnot' : ¬ (b.after (.dequeue queue max hideFor)).WasGivenBack h := hnot
    simp [hnot']
  constructor
  case inv => exact traffic_after b _ ▸ Traffic.inv_after hb.inv _
  case sum =>
    intro m' hm'
    obtain ⟨m, hm, hid, hcase⟩ := htakes.message m' hm'
    have hsum := hb.sum m hm
    rw [hkept, ← hid]
    show m'.dequeueCount + b.lost m.id = _
    rcases hcase with ⟨⟨h, hh, hhid⟩, -, hcount⟩ | ⟨hother, -, hcount⟩
    · have hone := timesTaken_eq_one htakes.nodup hh
      rw [hhid] at hone
      omega
    · have hzero := timesTaken_eq_zero hother
      omega
  case pos =>
    intro m' hm' h hh hheld hnot
    obtain ⟨m, hm, hid, hcase⟩ := htakes.message m' hm'
    obtain ⟨hid', hreceipt'⟩ := isHeld_iff.mp hheld
    rcases hcase with ⟨-, -, hcount⟩ | ⟨hother, hreceipt, hcount⟩
    · omega
    · rw [traffic_after, Traffic.held_taken] at hh
      rcases List.mem_append.mp hh with hold | hnew
      · rw [hcount]
        exact hb.pos m hm h hold
          (isHeld_iff.mpr ⟨hid.trans hid', hreceipt.symm.trans hreceipt'⟩) hnot
      · exact absurd (hid'.symm.trans hid.symm) (hother h hnew)
  case known =>
    intro d hd
    obtain ⟨h, hh, hsame⟩ := hb.known d hd
    refine ⟨h, ?_, hsame⟩
    rw [traffic_after, Traffic.held_taken]
    exact List.mem_append_left _ hh
  case twice => exact hb.twice

/-! ### One more taking given back -/

section GivenBack

variable (hb : Exact b) (hm : m ∈ b.traffic.table.messages) (hheld : isHeld h m = true)
include hb hm hheld

/-- Who holds a message has its latest taking. -/
theorem Exact.exists_taking : ∃ g ∈ b.traffic.held, IsSame h g := by
  obtain ⟨hid, hreceipt⟩ := isHeld_iff.mp hheld
  have hlatest := (hb.inv.latest m hm).symm.trans hreceipt
  obtain ⟨g, hfound, hsame⟩ := Option.map_eq_some_iff.mp hlatest
  have hgid : g.id = m.id := by simpa using List.find?_some hfound
  exact ⟨g, List.mem_reverse.mp (List.mem_of_find?_eq_some hfound), (hgid.trans hid).symm, hsame.symm⟩

/-- One taking of a message has one receipt. -/
theorem Exact.countP_isSame : b.traffic.held.countP (IsSame h ·) = 1 := by
  obtain ⟨g, hg, hsame⟩ := hb.exists_taking hm hheld
  obtain ⟨before, behind, hsplit⟩ := List.append_of_mem hg
  have hsorted := hb.inv.increasing
  rw [hsplit, List.pairwise_append, List.pairwise_cons] at hsorted
  obtain ⟨-, ⟨hbehind, -⟩, hbefore⟩ := hsorted
  have hearlier : before.countP (IsSame h ·) = 0 := by
    refine List.countP_eq_zero.mpr fun f hf hfsame => ?_
    obtain ⟨hid, hreceipt⟩ := of_decide_eq_true hfsame
    have hlt := hbefore f hf g List.mem_cons_self (hsame.1.symm.trans hid)
    exact absurd (hreceipt.symm.trans hsame.2) (Nat.ne_of_lt hlt)
  have hlater : behind.countP (IsSame h ·) = 0 := by
    refine List.countP_eq_zero.mpr fun f hf hfsame => ?_
    obtain ⟨hid, hreceipt⟩ := of_decide_eq_true hfsame
    have hlt := hbehind f hf (hid.symm.trans hsame.1)
    exact absurd (hsame.2.symm.trans hreceipt) (Nat.ne_of_lt hlt)
  rw [hsplit, List.countP_append, List.countP_cons, hearlier, hlater]
  simp [hsame]

/-- The latest taking of a message counts until it is given back. -/
theorem Exact.dequeueCount_pos (hfirst : ¬ b.WasGivenBack h) : 0 < m.dequeueCount := by
  obtain ⟨g, hg, hsame⟩ := hb.exists_taking hm hheld
  refine hb.pos m hm g hg (hsame.isHeld_eq m ▸ hheld) fun hback => ?_
  exact hfirst ((hsame.wasGivenBack_iff b).mpr hback)

variable {b' : Books} (htakings : b'.traffic.held = b.traffic.held)
  (hgiven : b'.givenBack = b.givenBack ++ [h])
include htakings hgiven

omit hb hm hheld htakings in
theorem wasGivenBack_concat (g : Held) :
    b'.WasGivenBack g ↔ b.WasGivenBack g ∨ IsSame h g := by
  simp only [WasGivenBack, hgiven, List.mem_append, List.mem_singleton, or_and_right, exists_or,
    exists_eq_left]

/-- A taking that is given back for the first time is one less to count. -/
theorem Exact.kept_first (hfirst : ¬ b.WasGivenBack h) : b.kept h.id = b'.kept h.id + 1 := by
  rw [kept, List.countP_eq_countP_filter_add _ _ (IsSame h ·), List.countP_filter, List.countP_filter,
    Nat.add_comm, ← hb.countP_isSame hm hheld, kept, htakings]
  congr 1
  · refine List.countP_congr fun g _ => ?_
    simp [wasGivenBack_concat hgiven, and_assoc]
  · refine List.countP_congr fun g _ => ?_
    have hnot : IsSame h g → ¬ b.WasGivenBack g := fun hsame hback =>
      hfirst ((hsame.wasGivenBack_iff b).mpr hback)
    simp only [Bool.and_eq_true, decide_eq_true_eq, Bool.not_eq_true', decide_eq_false_iff_not]
    exact ⟨fun hall => hall.2, fun hsame => ⟨⟨hsame.1.symm, hnot hsame⟩, hsame⟩⟩

omit hb hm hheld in
/-- Other messages have as many takings to count as before. -/
theorem kept_other {id : Nat} (hid : id ≠ h.id) : b'.kept id = b.kept id := by
  rw [kept, htakings, kept]
  refine List.countP_congr fun g _ => ?_
  have hnot : g.id = id → ¬ IsSame h g := fun hgid hsame => hid (hgid.symm.trans hsame.1.symm)
  simp only [wasGivenBack_concat hgiven, Bool.and_eq_true, decide_eq_true_eq, Bool.not_eq_true',
    decide_eq_false_iff_not, not_or]
  exact ⟨fun hall => ⟨hall.1, hall.2.1⟩, fun hall => ⟨hall.1, hall.2, hnot hall.1⟩⟩

omit hb hm hheld in
/-- A taking that had been given back is not to count already. -/
theorem kept_again (hagain : b.WasGivenBack h) (id : Nat) : b'.kept id = b.kept id := by
  have hback : ∀ g, b'.WasGivenBack g ↔ b.WasGivenBack g := by
    intro g
    rw [wasGivenBack_concat hgiven]
    exact or_iff_left_of_imp fun hsame => (hsame.wasGivenBack_iff b).mp hagain
  simp only [kept, htakings, hback]

variable (hdoubled : b'.doubled = b.doubled ++
  if b.WasGivenBack h ∧ b.lost h.id < b.kept h.id then [h] else [])
include hdoubled

omit hb hm hheld htakings hgiven in
/-- One more is taken off for a taking that had been given back before, if one is left that counts. -/
theorem lost_self : b'.lost h.id = b.lost h.id +
    if b.WasGivenBack h ∧ b.lost h.id < b.kept h.id then 1 else 0 := by
  rw [lost, hdoubled, timesTaken_append, ← lost]
  split <;> simp [timesTaken]

omit hb hm hheld htakings hgiven in
/-- From other messages nothing is taken off. -/
theorem lost_other {id : Nat} (hid : id ≠ h.id) : b'.lost id = b.lost id := by
  rw [lost, hdoubled, timesTaken_append, ← lost, Nat.add_eq_left]
  refine timesTaken_eq_zero fun d hd heq => hid ?_
  split at hd
  · rw [← heq, List.mem_singleton.mp hd]
  · cases hd

/-- The count of the message goes down by one, for the taking or else for another. -/
theorem Exact.sum_self : m.dequeueCount - 1 + b'.lost h.id = b'.kept h.id := by
  have hsum := hb.sum m hm
  rw [(isHeld_iff.mp hheld).1] at hsum
  rw [lost_self hdoubled]
  by_cases hagain : b.WasGivenBack h
  · rw [kept_again htakings hgiven hagain]
    by_cases hleft : b.lost h.id < b.kept h.id
    · rw [if_pos ⟨hagain, hleft⟩]
      omega
    · rw [if_neg fun hall => hleft hall.2]
      omega
  · have hpos := hb.dequeueCount_pos hm hheld hagain
    have hfirst := hb.kept_first hm hheld htakings hgiven hagain
    rw [if_neg fun hall => hagain hall.1]
    omega

omit hm hheld htakings in
/-- What is taken off now had been given back before, and is given back now. -/
theorem Exact.twice_givenBack : ∀ d ∈ b'.doubled, 2 ≤ b'.givenBack.countP (IsSame · d) := by
  rw [hgiven, hdoubled]
  intro d hd
  rw [List.countP_append]
  rcases List.mem_append.mp hd with hold | hnew
  · exact Nat.le_add_right_of_le (hb.twice d hold)
  · split at hnew
    · rename_i hall
      obtain ⟨f, hf, hsame⟩ := hall.1
      rw [List.mem_singleton.mp hnew]
      have hearlier : 0 < b.givenBack.countP (IsSame · h) :=
        List.countP_pos_iff.mpr ⟨f, hf, decide_eq_true hsame⟩
      have hlast : [h].countP (IsSame · h) = 1 := by simp [IsSame]
      omega
    · cases hnew

end GivenBack

/-- **A taking given back** lowers the count by one, whatever it was given back for, unless the count is
zero already. -/
theorem Exact.givenBack (hb : Exact b) {delay : Span}
    (hsucceeds : (b.traffic.table.defer h b.traffic.now delay false).1 = true) :
    Exact (b.after (.defer h delay false)) := by
  obtain ⟨held, hmem, hheld⟩ := List.any_eq_true.mp hsucceeds
  have hmessages := Accounts.message_givenBack hb.inv.numbered hmem hheld b.traffic.now delay
  have hafter : b.after (.defer h delay false) =
      { traffic := b.traffic.after (.defer h delay false)
        givenBack := b.givenBack ++ [h]
        doubled := b.doubled ++
          if b.WasGivenBack h ∧ b.lost h.id < b.kept h.id then [h] else [] } := if_pos hsucceeds
  have htraffic := traffic_after b (.defer h delay false)
  have htakings : (b.after (.defer h delay false)).traffic.held = b.traffic.held := by rw [hafter]; rfl
  have hgiven : (b.after (.defer h delay false)).givenBack = b.givenBack ++ [h] := by rw [hafter]
  have hdoubled : (b.after (.defer h delay false)).doubled = b.doubled ++
      if b.WasGivenBack h ∧ b.lost h.id < b.kept h.id then [h] else [] := by rw [hafter]
  constructor
  case inv => exact htraffic ▸ Traffic.inv_after hb.inv _
  case sum =>
    intro m' hm'
    rw [htraffic] at hm'
    obtain ⟨m, hm, hid, -, hcase⟩ := hmessages m' hm'
    rw [← hid]
    rcases hcase with ⟨rfl, hcount⟩ | ⟨hother, hcount⟩
    · rw [hcount, (isHeld_iff.mp hheld).1]
      exact hb.sum_self hm hheld htakings hgiven hdoubled
    · rw [hcount, lost_other hdoubled hother, kept_other htakings hgiven hother]
      exact hb.sum m hm
  case pos =>
    intro m' hm' g hg hgheld hnot
    rw [htraffic] at hm'
    rw [htakings] at hg
    rw [wasGivenBack_concat hgiven, not_or] at hnot
    obtain ⟨m, hm, hid, hreceipt, hcase⟩ := hmessages m' hm'
    obtain ⟨hgid, hgreceipt⟩ := isHeld_iff.mp hgheld
    have hgheld' : isHeld g m = true := isHeld_iff.mpr ⟨hid.trans hgid, hreceipt.trans hgreceipt⟩
    rcases hcase with ⟨rfl, -⟩ | ⟨-, hcount⟩
    · -- it was this taking that was given back
      exact absurd (isSame_of_isHeld hheld hgheld') hnot.2
    · rw [hcount]
      exact hb.pos m hm g hg hgheld' hnot.1
  case known =>
    rw [hgiven, htakings]
    intro d hd
    rcases List.mem_append.mp hd with hold | hnew
    · exact hb.known d hold
    · rw [List.mem_singleton.mp hnew]
      exact hb.exists_taking hmem hheld
  case twice => exact hb.twice_givenBack hgiven hdoubled

/-! ### Any calls -/

/-- **One more call** keeps the books. -/
theorem exact_after (hb : Exact b) (c : Call) : Exact (b.after c) := by
  have hinv : (b.after c).traffic.Inv := traffic_after b c ▸ Traffic.inv_after hb.inv c
  cases c with
  | enqueue queue payload delay =>
    refine hb.sameTakings hinv rfl rfl rfl fun m' hm' => ?_
    rcases List.mem_append.mp hm' with hold | hnew
    · exact .inl ⟨m', hold, rfl, rfl, rfl⟩
    · rw [List.mem_singleton.mp hnew]
      exact .inr ⟨Nat.le_refl _, rfl⟩
  | dequeue queue max hideFor => exact hb.taken queue max hideFor
  | acknowledge h =>
    refine hb.sameTakings hinv rfl rfl rfl fun m' hm' => ?_
    exact .inl ⟨m', (mem_acknowledge.mp hm').1, rfl, rfl, rfl⟩
  | defer h delay counts =>
    by_cases hback : counts = false ∧ (b.traffic.table.defer h b.traffic.now delay false).1 = true
    · obtain ⟨rfl, hsucceeds⟩ := hback
      exact hb.givenBack hsucceeds
    · have hafter : b.after (.defer h delay counts) =
          { b with traffic := b.traffic.after (.defer h delay counts) } := by
        cases counts with
        | true => rfl
        | false => exact if_neg fun hsucceeds => hback ⟨rfl, hsucceeds⟩
      rw [hafter] at hinv ⊢
      refine hb.sameTakings hinv rfl rfl rfl fun m' hm' => .inl ?_
      obtain ⟨m, hm, rfl⟩ := List.mem_map.mp hm'
      refine ⟨m, hm, ?_⟩
      split
      · rename_i hheld
        cases counts with
        | true => exact ⟨rfl, rfl, rfl⟩
        | false => exact absurd ⟨rfl, List.any_eq_true.mpr ⟨m, hm, hheld⟩⟩ hback
      · exact ⟨rfl, rfl, rfl⟩
  | wait ms => exact hb.sameTakings hinv rfl rfl rfl fun m' hm' => .inl ⟨m', hm', rfl, rfl, rfl⟩

/-- **The books are exact after any calls.** -/
theorem exact_ofCalls (start : Int) (calls : List Call) : Exact (ofCalls start calls) := by
  induction calls using List.reverseRecOn with
  | nil => exact exact_start start
  | append_singleton calls c ih =>
    rw [ofCalls_concat]
    exact exact_after ih c

/-! ## What a count says -/

/-- What is never given back twice is never taken off twice. -/
theorem Exact.lost_eq_zero_of_once (hb : Exact b) {id : Nat} (honce : b.GivesBackOnce id) :
    b.lost id = 0 := by
  refine timesTaken_eq_zero fun d hd hid => ?_
  have htwice := hb.twice d hd
  obtain ⟨f, hf, hfsame⟩ := List.countP_pos_iff.mp (Nat.lt_of_lt_of_le Nat.zero_lt_two htwice)
  obtain ⟨g, hg, hgid, hgreceipt⟩ := hb.known f hf
  obtain ⟨hfid, hfreceipt⟩ := of_decide_eq_true hfsame
  have hle := honce g hg (hgid.symm.trans (hfid.trans hid))
  have hsame : b.givenBack.countP (IsSame · g) = b.givenBack.countP (IsSame · d) := by
    refine List.countP_congr fun e _ => ?_
    rw [decide_eq_true_eq, decide_eq_true_eq, IsSame, IsSame, ← hgid, ← hgreceipt, hfid, hfreceipt]
  omega

/-- **What a count says.** After any calls of any number of consumers, the count that a taking reports is
one more than the number of earlier takings of the message that were not given back, less those that were
taken off for a taking which had been given back before; of these there are none if each taking was given
back once at most. -/
theorem ofCalls_counts (start : Int) (calls : List Call) (queue : String) (max : Nat) (hideFor : Span)
    (h : Held) (hh : h ∈ ((Traffic.ofCalls start calls).table.dequeue queue
      (Traffic.ofCalls start calls).now max hideFor).1) :
    (ofCalls start calls).lost h.id ≤ (ofCalls start calls).kept h.id ∧
    h.dequeueCount =
      (1 + ((ofCalls start calls).kept h.id - (ofCalls start calls).lost h.id)) % Word.range32 ∧
    ((ofCalls start calls).GivesBackOnce h.id →
      h.dequeueCount = (1 + (ofCalls start calls).kept h.id) % Word.range32) := by
  have hb := exact_ofCalls start calls
  rw [← traffic_ofCalls] at hh
  generalize ofCalls start calls = b at hb hh ⊢
  obtain ⟨m, hm, hid, hcount⟩ :=
    (takes_dequeue hb.inv.numbered queue b.traffic.now max hideFor).held h hh
  have hsum := hb.sum m hm
  rw [hid] at hsum
  have hkept : m.dequeueCount = b.kept h.id - b.lost h.id := by omega
  refine ⟨by omega, ?_, fun honce => ?_⟩
  · rw [hcount, Nat.add_comm, hkept]
  · rw [hcount, Nat.add_comm, hkept, hb.lost_eq_zero_of_once honce, Nat.sub_zero]

/-- A message is taken twice, since it does not hide, and the second taking is given back twice. -/
def sampleDoubled : List Call :=
  [.enqueue deliveryQueue "job" .zero, .dequeue deliveryQueue 1 .zero, .dequeue deliveryQueue 1 .zero,
    .defer ⟨1, 1, 2, "job", 0⟩ .zero false, .defer ⟨1, 1, 2, "job", 0⟩ .zero false]

theorem dequeue_sampleDoubled : ((Traffic.ofCalls 0 sampleDoubled).table.dequeue deliveryQueue
    (Traffic.ofCalls 0 sampleDoubled).now 1 .zero).1 = [⟨1, 2, 1, "job", 0⟩] := by
  decide +kernel

theorem kept_sampleDoubled : (ofCalls 0 sampleDoubled).kept 1 = 1 := by
  decide +kernel

theorem mem_sampleDoubled : ⟨1, 2, 1, "job", 0⟩ ∈ ((Traffic.ofCalls 0 sampleDoubled).table.dequeue
    deliveryQueue (Traffic.ofCalls 0 sampleDoubled).now 1 .zero).1 := by
  rw [dequeue_sampleDoubled]
  exact List.mem_singleton_self _

theorem ofCalls_counts_sample :
    (ofCalls 0 sampleDoubled).lost 1 ≤ (ofCalls 0 sampleDoubled).kept 1 ∧
    1 = (1 + ((ofCalls 0 sampleDoubled).kept 1 - (ofCalls 0 sampleDoubled).lost 1)) % Word.range32 ∧
    ((ofCalls 0 sampleDoubled).GivesBackOnce 1 →
      1 = (1 + (ofCalls 0 sampleDoubled).kept 1) % Word.range32) :=
  ofCalls_counts 0 sampleDoubled deliveryQueue 1 .zero _ mem_sampleDoubled

/-- **A count may be too low.** One taking of the message was not given back, and who takes it next is
told that it is the first. -/
theorem ofCalls_countsLow : ¬ ∀ (start : Int) (calls : List Call) (queue : String) (max : Nat)
    (hideFor : Span), ∀ h ∈ ((Traffic.ofCalls start calls).table.dequeue queue
      (Traffic.ofCalls start calls).now max hideFor).1,
    h.dequeueCount = (1 + (ofCalls start calls).kept h.id) % Word.range32 := by
  intro hclaim
  have htwo := hclaim 0 sampleDoubled deliveryQueue 1 .zero _ mem_sampleDoubled
  rw [kept_sampleDoubled] at htwo
  exact absurd htwo (by decide)

end Books
end Syndication.MessageTable
