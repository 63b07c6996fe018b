import Mathlib.Data.String.Basic
import Syndication.Store.Flat

/-!
# Proofs.Store.Flat — a store in memory is a function of its keys

What a store answers for a key tells all there is to know about it. Putting an object changes the
answer for its key only, and so does deleting one; a listing names the keys that have an answer.

## Contents
* `isSome_lookup_iff`, `lookup_filter_ne` — association lists
* `lookup_insertSorted`
* `get?_put`, `get?_delete`, `mem_list`   — the operations
* `IsAscending`                           — keys ascend, so a listing does
-/

namespace Syndication.Store

/-! ## Association lists -/

section Lookup

variable {κ α : Type} [DecidableEq κ] [BEq κ] [LawfulBEq κ]

theorem lookup_cons_eq (a : κ) (v : α) (l : List (κ × α)) (k : κ) :
    ((a, v) :: l).lookup k = if k = a then some v else l.lookup k := by
  by_cases hk : k = a
  · simp [hk]
  · simp only [List.lookup_cons, beq_false_of_ne hk, if_neg hk]

theorem isSome_lookup_iff (l : List (κ × α)) (k : κ) :
    (l.lookup k).isSome = true ↔ k ∈ l.map (·.1) := by
  induction l with
  | nil => simp
  | cons e l ih =>
    rw [lookup_cons_eq, List.map_cons, List.mem_cons, ← ih]
    split <;> simp_all

/-- Without the entries of one key the others answer as before. -/
theorem lookup_filter_ne (l : List (κ × α)) (key k : κ) :
    (l.filter (·.1 ≠ key)).lookup k = if k = key then none else l.lookup k := by
  induction l with
  | nil => simp
  | cons e l ih =>
    obtain ⟨a, v⟩ := e
    rw [lookup_cons_eq]
    by_cases ha : a = key
    · have hdrop : ((a, v) :: l).filter (·.1 ≠ key) = l.filter (·.1 ≠ key) := by simp [ha]
      rw [hdrop, ih]
      split
      · rfl
      · rename_i hk
        rw [if_neg (ha ▸ hk)]
    · have hkeep : ((a, v) :: l).filter (·.1 ≠ key) = (a, v) :: l.filter (·.1 ≠ key) := by simp [ha]
      rw [hkeep, lookup_cons_eq, ih]
      by_cases hk : k = a
      · rw [if_pos hk, if_pos hk, if_neg (hk ▸ ha)]
      · rw [if_neg hk, if_neg hk]

end Lookup

namespace Flat

theorem lookup_insertSorted (key : String) (data : Bytes) (l : List (String × Bytes)) (k : String) :
    (insertSorted key data l).lookup k = if k = key then some data else l.lookup k := by
  induction l with
  | nil => rw [insertSorted, lookup_cons_eq]
  | cons e l ih =>
    obtain ⟨a, v⟩ := e
    unfold insertSorted
    split
    · rename_i heq
      rw [lookup_cons_eq, lookup_cons_eq, ← heq]
      split <;> rfl
    · rename_i hne
      split
      · rw [lookup_cons_eq]
      · rw [lookup_cons_eq, lookup_cons_eq, ih]
        by_cases hk : k = a
        · rw [if_pos hk, if_pos hk, if_neg (fun h => hne (h.symm.trans hk))]
        · rw [if_neg hk, if_neg hk]

/-! ## The operations -/

theorem get?_put (f : Flat) (key : String) (data : Bytes) (k : String) :
    (f.put key data).get? k = if k = key then some data else f.get? k :=
  lookup_insertSorted key data f.entries k

theorem get?_delete (f : Flat) (key k : String) :
    (f.delete key).2.get? k = if k = key then none else f.get? k :=
  lookup_filter_ne f.entries key k

theorem delete_fst (f : Flat) (key : String) : (f.delete key).1 = (f.get? key).isSome := by
  rw [Bool.eq_iff_iff, get?, isSome_lookup_iff]
  simp [delete]

/-- A listing names the keys that have an object and begin with `start`. -/
theorem mem_list (f : Flat) (start k : String) :
    k ∈ f.list start ↔ (f.get? k).isSome = true ∧ Text.startsWith k start = true := by
  rw [list, List.mem_filter, get?, isSome_lookup_iff]

/-! ## Order -/

/-- Keys ascend, and none occurs twice. -/
def IsAscending (f : Flat) : Prop := (f.entries.map (·.1)).Pairwise (· < ·)

theorem isAscending_empty : IsAscending {} := List.Pairwise.nil

/-- An entry put in its place stands behind what is less. -/
theorem forall_mem_insertSorted {p : String → Prop} {key : String} {data : Bytes}
    {l : List (String × Bytes)} (hkey : p key) (hl : ∀ k ∈ l.map (·.1), p k) :
    ∀ k ∈ (insertSorted key data l).map (·.1), p k := by
  induction l with
  | nil => simpa [insertSorted] using hkey
  | cons e l ih =>
    rw [List.map_cons, List.forall_mem_cons] at hl
    unfold insertSorted
    split
    · exact List.forall_mem_cons.mpr ⟨hkey, hl.2⟩
    split
    · exact List.forall_mem_cons.mpr ⟨hkey, List.forall_mem_cons.mpr hl⟩
    · exact List.forall_mem_cons.mpr ⟨hl.1, ih hl.2⟩

theorem IsAscending.put {f : Flat} (h : f.IsAscending) (key : String) (data : Bytes) :
    (f.put key data).IsAscending := by
  obtain ⟨l⟩ := f
  unfold IsAscending at h
  show ((insertSorted key data l).map (·.1)).Pairwise (· < ·)
  induction l with
  | nil => exact List.pairwise_singleton _ _
  | cons e l ih =>
    rw [List.map_cons, List.pairwise_cons] at h
    unfold insertSorted
    split
    · rename_i heq
      exact List.pairwise_cons.mpr ⟨heq ▸ h.1, h.2⟩
    rename_i hne
    split
    · rename_i hlt
      refine List.pairwise_cons.mpr ⟨?_, List.pairwise_cons.mpr h⟩
      exact List.forall_mem_cons.mpr ⟨hlt, fun k hk => lt_trans hlt (h.1 k hk)⟩
    · rename_i hnot
      have hlt : e.1 < key := lt_of_le_of_ne (not_lt.mp hnot) fun heq => hne heq.symm
      exact List.pairwise_cons.mpr ⟨forall_mem_insertSorted hlt h.1, ih h.2⟩

theorem IsAscending.delete {f : Flat} (h : f.IsAscending) (key : String) :
    (f.delete key).2.IsAscending :=
  h.sublist (List.filter_sublist.map _)

theorem IsAscending.list {f : Flat} (h : f.IsAscending) (start : String) :
    (f.list start).Pairwise (· < ·) :=
  h.sublist List.filter_sublist

end Flat
end Syndication.Store
