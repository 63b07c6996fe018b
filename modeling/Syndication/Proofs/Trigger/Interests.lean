import Mathlib.Data.List.Nodup
import Mathlib.Data.List.Perm.Lattice
import Syndication.Proofs.Effect
import Syndication.Trigger.Table

/-!
# Proofs.Trigger.Interests — the index of accounts is exact

A user stands in the index of an account exactly as long as one of the user's triggers is on it, however
many there are: the first one brings the user in, and the last one takes the user out. So to look up the
users first and then the triggers of each comes to the triggers that are on the account, each once.

## Contents
* `nameOf`, `isAt`                                       — what a trigger is called, and where it is
* `Exact`, `Exact.added`, `Exact.delete`, `Exact.map`     — the index, and what keeps it exact
* `mem_interestedUsers_iff`, `nodup_interestedUsers`
* `awaiting`, `awaiting_perm`                            — the triggers on an account, user by user
-/

namespace Syndication

/-- A letter in lower case stays as it is. -/
theorem Text.toLower_toLower (c : Char) : c.toLower.toLower = c.toLower := by
  by_cases hupper : c.val ≥ 'A'.val ∧ c.val ≤ 'Z'.val
  · have hval : c.toLower.val = c.val + ('a'.val - 'A'.val) := congrArg Char.val (dif_pos hupper)
    refine dif_neg ?_
    rw [hval]
    simp only [ge_iff_le, UInt32.le_iff_toNat_le] at hupper ⊢
    simp at hupper ⊢
    omega
  · have hsame : c.toLower = c := dif_neg hupper
    rw [hsame, hsame]

theorem Text.lower_lower (s : String) : Text.lower (Text.lower s) = Text.lower s := by
  rw [Text.lower, Text.lower, String.toList_ofList, List.map_map]
  exact congrArg String.ofList (List.map_congr_left fun c _ => Text.toLower_toLower c)

namespace TriggerTable

variable {s s' : TriggerTable} {t t' : Trigger} {userId triggerId accountType accountId : String}

/-! ## Names and accounts -/

/-- The user and the identifier of a trigger. -/
def nameOf (t : Trigger) : String × String := (t.userId, t.triggerId)

/-- The trigger is on an account. -/
def isAt (accountType accountId : String) (t : Trigger) : Bool :=
  decide (t.accountType = accountType) && decide (t.accountId = accountId)

theorem isTrigger_iff : isTrigger userId triggerId t = true ↔ nameOf t = (userId, triggerId) := by
  simp [isTrigger, nameOf]

theorem isOn_iff : isOn userId accountType accountId t = true ↔
    interestOf t = ⟨accountType, accountId, userId⟩ := by
  simp only [isOn, interestOf, Bool.and_eq_true, decide_eq_true_eq, Interest.mk.injEq]
  tauto

theorem isAt_iff :
    isAt accountType accountId t = true ↔ interestOf t = ⟨accountType, accountId, t.userId⟩ := by
  simp [isAt, interestOf]

/-! ## The index -/

/-- **The index is exact.** No two triggers have the same name, account types are in lower case, and a
user is in the index of an account, and then once, if one of the user's triggers is on it. -/
structure Exact (s : TriggerTable) : Prop where
  named : (s.triggers.map nameOf).Nodup
  lowered : ∀ t ∈ s.triggers, Text.lower t.accountType = t.accountType
  distinct : s.interests.Nodup
  interested : ∀ i, i ∈ s.interests ↔ ∃ t ∈ s.triggers, interestOf t = i

namespace Exact

theorem empty : Exact {} where
  named := .nil
  lowered := by simp
  distinct := .nil
  interested := by simp

/-- The index knows nothing of templates. -/
theorem of_eq (h : Exact s) (htriggers : s'.triggers = s.triggers)
    (hinterests : s'.interests = s.interests) : Exact s' where
  named := htriggers ▸ h.named
  lowered := htriggers ▸ h.lowered
  distinct := hinterests ▸ h.distinct
  interested := by
    rw [htriggers, hinterests]
    exact h.interested

/-- A name stands for one trigger. -/
theorem eq_of_name (h : Exact s) (ht : t ∈ s.triggers) (ht' : t' ∈ s.triggers)
    (hname : nameOf t = nameOf t') : t = t' :=
  List.inj_on_of_nodup_map h.named ht ht' hname

theorem nodup (h : Exact s) : s.triggers.Nodup := h.named.of_map

end Exact

/-! ## Registrations -/

/-- The table with one more trigger. -/
def added (s : TriggerTable) (t : Trigger) : TriggerTable := { s with
  triggers := s.triggers ++ [t]
  interests := if interestOf t ∈ s.interests then s.interests else s.interests ++ [interestOf t] }

/-- **A registration** adds the trigger, or changes nothing if its name is taken. -/
theorem exec_insert (t : Trigger) (s : TriggerTable) :
    nameOf t ∉ s.triggers.map nameOf ∧ (insert t).exec s = (.ok (), s.added t) ∨
      nameOf t ∈ s.triggers.map nameOf ∧ ∃ cause, (insert t).exec s = (.error cause, s) := by
  have hany : s.triggers.any (isTrigger t.userId t.triggerId) = true ↔
      nameOf t ∈ s.triggers.map nameOf := by
    rw [List.any_eq_true, List.mem_map]
    simp only [isTrigger_iff]
    rfl
  by_cases hname : nameOf t ∈ s.triggers.map nameOf
  · exact .inr ⟨hname, _, if_pos (hany.mpr hname)⟩
  · exact .inl ⟨hname, if_neg (mt hany.mp hname)⟩

theorem mem_interests_added {i : Interest} :
    i ∈ (s.added t).interests ↔ i ∈ s.interests ∨ i = interestOf t := by
  rw [added]
  by_cases hold : interestOf t ∈ s.interests
  · rw [if_pos hold]
    exact ⟨.inl, fun h => h.elim id fun heq => heq ▸ hold⟩
  · rw [if_neg hold, List.mem_append, List.mem_singleton]

/-- A new trigger brings its user into the index. -/
theorem Exact.added (h : Exact s) (hnew : nameOf t ∉ s.triggers.map nameOf)
    (hlower : Text.lower t.accountType = t.accountType) : Exact (s.added t) where
  named := by
    rw [TriggerTable.added, List.map_append, List.map_singleton]
    exact h.named.append (List.nodup_singleton _) (by simpa using hnew)
  lowered := by
    intro t' ht'
    rcases List.mem_append.mp ht' with hold | hlast
    · exact h.lowered t' hold
    · rwa [List.mem_singleton.mp hlast]
  distinct := by
    rw [TriggerTable.added]
    split
    · exact h.distinct
    · rename_i hout
      exact h.distinct.append (List.nodup_singleton _) (by simpa using hout)
  interested := by
    intro i
    rw [mem_interests_added, h.interested]
    simp only [TriggerTable.added, List.mem_append, List.mem_singleton, or_and_right, exists_or,
      exists_eq_left, @eq_comm _ i]

/-! ## Removals -/

theorem triggers_delete (s : TriggerTable) (userId triggerId : String) :
    (s.delete userId triggerId).2.triggers = s.triggers.filter (!isTrigger userId triggerId ·) := by
  rw [delete]
  cases hget : s.get? userId triggerId with
  | none =>
    symm
    rw [List.filter_eq_self]
    intro t ht
    simpa using List.find?_eq_none.mp hget t ht
  | some t => rfl

theorem mem_triggers_delete :
    t ∈ (s.delete userId triggerId).2.triggers ↔ t ∈ s.triggers ∧ nameOf t ≠ (userId, triggerId) := by
  rw [triggers_delete, List.mem_filter, Bool.not_eq_true', ← Bool.not_eq_true, isTrigger_iff]

/-- A trigger is the one of a name, or one of those that stay when it goes. -/
theorem Exact.exists_interest_iff (h : Exact s) (ht : t ∈ s.triggers) {i : Interest} :
    (∃ t' ∈ s.triggers, interestOf t' = i) ↔
      interestOf t = i ∨ ∃ t' ∈ (s.delete t.userId t.triggerId).2.triggers, interestOf t' = i := by
  constructor
  · rintro ⟨t', ht', hi⟩
    by_cases hname : nameOf t' = nameOf t
    · exact .inl (h.eq_of_name ht' ht hname ▸ hi)
    · exact .inr ⟨t', mem_triggers_delete.mpr ⟨ht', hname⟩, hi⟩
  · rintro (hi | ⟨t', ht', hi⟩)
    · exact ⟨t, ht, hi⟩
    · exact ⟨t', (mem_triggers_delete.mp ht').1, hi⟩

/-- A removal takes the user out of the index, unless another trigger of the user is on the account. -/
theorem interests_delete (hget : s.get? userId triggerId = some t) {i : Interest} :
    i ∈ (s.delete userId triggerId).2.interests ↔ i ∈ s.interests ∧
      (i = interestOf t →
        ∃ t' ∈ (s.delete userId triggerId).2.triggers, interestOf t' = interestOf t) := by
  obtain rfl : t.userId = userId := congrArg Prod.fst (isTrigger_iff.mp (List.find?_some hget))
  have hany : (s.triggers.filter (!isTrigger t.userId triggerId ·)).any
        (isOn t.userId t.accountType t.accountId) = true ↔
      ∃ t' ∈ (s.delete t.userId triggerId).2.triggers, interestOf t' = interestOf t := by
    rw [triggers_delete, List.any_eq_true]
    simp only [isOn_iff]
    rfl
  rw [← hany, delete, hget]
  simp only
  by_cases hother : (s.triggers.filter (!isTrigger t.userId triggerId ·)).any
      (isOn t.userId t.accountType t.accountId) = true
  · simp [hother]
  · rw [if_neg hother, List.mem_filter, decide_eq_true_iff]
    exact and_congr_right fun _ => ⟨fun hne heq => absurd heq hne, fun himp heq => hother (himp heq)⟩

/-- **A removal** keeps the index exact. -/
theorem Exact.delete (h : Exact s) (userId triggerId : String) :
    Exact (s.delete userId triggerId).2 where
  named := by
    rw [triggers_delete]
    exact h.named.sublist (List.filter_sublist.map _)
  lowered := fun t ht => h.lowered t (mem_triggers_delete.mp ht).1
  distinct := by
    rw [TriggerTable.delete]
    split
    · exact h.distinct
    · simp only
      split
      · exact h.distinct
      · exact h.distinct.filter _
  interested := by
    intro i
    cases hget : s.get? userId triggerId with
    | none =>
      rw [TriggerTable.delete, hget]
      exact h.interested i
    | some t =>
      have hname : nameOf t = (userId, triggerId) := isTrigger_iff.mp (List.find?_some hget)
      rw [interests_delete hget, h.interested, h.exists_interest_iff (List.mem_of_find?_eq_some hget)]
      obtain ⟨rfl, rfl⟩ := Prod.mk.inj hname
      -- an account keeps its user as long as another trigger of the user is of it
      constructor
      · rintro ⟨hgone | hstays, hlast⟩
        · exact hgone ▸ hlast hgone.symm
        · exact hstays
      · intro hstays
        exact ⟨.inr hstays, fun heq => heq ▸ hstays⟩

/-! ## Stamps -/

/-- A change of triggers that leaves their names and accounts keeps the index exact. -/
theorem Exact.map (h : Exact s) {f : Trigger → Trigger} (hname : ∀ t, nameOf (f t) = nameOf t)
    (haccount : ∀ t, interestOf (f t) = interestOf t) :
    Exact { s with triggers := s.triggers.map f } where
  named := by
    rw [List.map_map]
    exact (List.map_congr_left fun t _ => hname t) ▸ h.named
  lowered := by
    intro t' ht'
    obtain ⟨t, ht, rfl⟩ := List.mem_map.mp ht'
    have htype : (f t).accountType = t.accountType := congrArg Interest.accountType (haccount t)
    rw [htype, h.lowered t ht]
  distinct := h.distinct
  interested := by
    intro i
    simp only [h.interested, List.mem_map, exists_exists_and_eq_and, haccount]

/-- A stamp keeps the index exact. -/
theorem Exact.mark (h : Exact s) (userId triggerId : String) (now : Int) :
    Exact (s.tryMarkNotified userId triggerId now).2 :=
  h.map (fun t => by split <;> rfl) fun t => by split <;> rfl

/-! ## Who waits for an account -/

/-- **A user is interested** in an account exactly if one of the user's triggers is on it. -/
theorem mem_interestedUsers_iff (h : Exact s) : userId ∈ s.interestedUsers accountType accountId ↔
    ∃ t ∈ s.triggers, interestOf t = ⟨accountType, accountId, userId⟩ := by
  rw [← h.interested, interestedUsers, List.mem_mergeSort, List.mem_map]
  constructor
  · rintro ⟨i, hi, rfl⟩
    obtain ⟨hmem, hat⟩ := List.mem_filter.mp hi
    simp only [Bool.and_eq_true, decide_eq_true_eq] at hat
    obtain ⟨rfl, rfl⟩ := hat
    exact hmem
  · intro hmem
    exact ⟨_, List.mem_filter.mpr ⟨hmem, by simp⟩, rfl⟩

theorem nodup_interestedUsers (h : Exact s) : (s.interestedUsers accountType accountId).Nodup := by
  rw [interestedUsers, (List.mergeSort_perm _ _).nodup_iff]
  refine List.Nodup.map_on ?_ (h.distinct.filter _)
  intro i hi j hj huser
  have hi' := (List.mem_filter.mp hi).2
  have hj' := (List.mem_filter.mp hj).2
  simp only [Bool.and_eq_true, decide_eq_true_eq] at hi' hj'
  cases i
  cases j
  simp_all

theorem mem_ofAccount_iff : t ∈ s.ofAccount userId accountType accountId ↔
    t ∈ s.triggers ∧ interestOf t = ⟨accountType, accountId, userId⟩ := by
  rw [ofAccount, List.mem_mergeSort, List.mem_filter, isOn_iff]

/-- The triggers on an account, user by user. -/
def awaiting (s : TriggerTable) (accountType accountId : String) : List Trigger :=
  (s.interestedUsers accountType accountId).flatMap fun userId =>
    s.ofAccount userId accountType accountId

theorem mem_awaiting_iff (h : Exact s) : t ∈ s.awaiting accountType accountId ↔
    t ∈ s.triggers ∧ isAt accountType accountId t = true := by
  simp only [awaiting, List.mem_flatMap, mem_interestedUsers_iff h, mem_ofAccount_iff, isAt_iff]
  constructor
  · rintro ⟨userId, -, ht, hi⟩
    obtain rfl : t.userId = userId := congrArg Interest.userId hi
    exact ⟨ht, hi⟩
  · rintro ⟨ht, hi⟩
    exact ⟨t.userId, ⟨t, ht, hi⟩, ht, hi⟩

/-- **User by user, no trigger is left out, and none comes twice.** -/
theorem awaiting_perm (h : Exact s) :
    (s.awaiting accountType accountId).Perm (s.triggers.filter (isAt accountType accountId)) := by
  have hnodup : (s.awaiting accountType accountId).Nodup := by
    rw [awaiting, List.nodup_flatMap]
    refine ⟨fun userId _ => ?_, (nodup_interestedUsers h).imp ?_⟩
    · rw [ofAccount, (List.mergeSort_perm _ _).nodup_iff]
      exact h.nodup.filter _
    · intro userId userId' hne t ht ht'
      have hsame := (mem_ofAccount_iff.mp ht).2.symm.trans (mem_ofAccount_iff.mp ht').2
      exact hne (congrArg Interest.userId hsame)
  rw [List.perm_ext_iff_of_nodup hnodup (h.nodup.filter _)]
  intro t
  rw [mem_awaiting_iff h, List.mem_filter]

end TriggerTable
end Syndication
