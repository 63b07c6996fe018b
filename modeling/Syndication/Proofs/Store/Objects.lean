import Syndication.Proofs.Effect
import Syndication.Proofs.Store.Walk
import Syndication.Store.Basic

/-!
# Proofs.Store.Objects — what a store answers, whatever holds its objects

A store in memory and a store of files are seen alike: as a function from keys to objects. Each
operation changes that function at one key at most, and a call that fails does not change it. What is
proved of staged content and locks rests on these statements alone.

## Contents
* `ObjectStore.find?`, `IsSound`, `InMemory` — the objects, and when they can be reached
* `Later`                                   — states of one store
* `put_spec`, `put_error`, `get_eq`, `find?_of_get`, `delete_spec`, `delete_frame`,
  `list_spec`
* `delete_inMemory`, `list_inMemory` — calls that cannot fail
* `Orderly`                         — a store in memory that is never out of order
-/

namespace Syndication.ObjectStore

open Store

/-- The object under a key. -/
def find? (s : ObjectStore) (key : String) : Option Bytes :=
  match s.objects with
  | .memory flat => flat.get? key
  | .files tree => tree.files.lookup (segments key)

/-- Every object can be reached. In memory this is always so. -/
def IsSound (s : ObjectStore) : Prop :=
  match s.objects with
  | .memory _ => True
  | .files tree => tree.IsSound

/-- The objects are held in memory. -/
def InMemory (s : ObjectStore) : Prop := ∃ flat, s.objects = .memory flat

theorem InMemory.isSound {s : ObjectStore} (h : s.InMemory) : s.IsSound := by
  obtain ⟨flat, hflat⟩ := h
  rw [IsSound, hflat]
  trivial

theorem inMemory_isSound : inMemory.IsSound := trivial

theorem onFiles_isSound : onFiles.IsSound := Tree.isSound_empty

/-- A later state of a store: it is out of order for the same keys, and its objects are held in the
same way. -/
structure Later (s s' : ObjectStore) : Prop where
  outage : s'.outage = s.outage
  isSound : s.IsSound → s'.IsSound
  inMemory : s.InMemory → s'.InMemory

namespace Later

theorem refl (s : ObjectStore) : Later s s := ⟨rfl, id, id⟩

theorem trans {s t u : ObjectStore} (h : Later s t) (h' : Later t u) : Later s u :=
  ⟨h'.outage.trans h.outage, h'.isSound ∘ h.isSound, h'.inMemory ∘ h.inMemory⟩

theorem memory (flat flat' : Flat) (outage : Outage) :
    Later ⟨.memory flat, outage⟩ ⟨.memory flat', outage⟩ :=
  ⟨rfl, fun _ => trivial, fun _ => ⟨flat', rfl⟩⟩

theorem files {tree tree' : Tree} (outage : Outage) (h : tree'.IsSound) :
    Later ⟨.files tree, outage⟩ ⟨.files tree', outage⟩ :=
  ⟨rfl, fun _ => h, fun hm => by obtain ⟨flat, hflat⟩ := hm; cases hflat⟩

end Later

variable {s s' : ObjectStore} {key : String} {data : Bytes}

/-! ## Putting -/

/-- **Putting an object** changes its key only, and nothing if it fails. -/
theorem put_spec (hs : s.IsSound) {r : Except Error Unit}
    (h : (ObjectStore.put key data).exec s = (r, s')) :
    Later s s' ∧
      ((r = .ok () ∧ ∀ k, s'.find? k = if k = key then some data else s.find? k) ∨
        ((∃ e, r = .error e) ∧ ∀ k, s'.find? k = s.find? k)) := by
  obtain ⟨objects, outage⟩ := s
  rw [ObjectStore.put, Effect.exec_ofFun] at h
  split at h
  · obtain ⟨rfl, rfl⟩ := Prod.mk.inj h
    exact ⟨.refl _, .inr ⟨⟨_, rfl⟩, fun _ => rfl⟩⟩
  cases objects with
  | memory flat =>
    simp only at h
    split at h
    · obtain ⟨rfl, rfl⟩ := Prod.mk.inj h
      exact ⟨.refl _, .inr ⟨⟨_, rfl⟩, fun _ => rfl⟩⟩
    · obtain ⟨rfl, rfl⟩ := Prod.mk.inj h
      exact ⟨.memory flat _ outage, .inl ⟨rfl, fun k => by simp only [find?, flat.get?_put]⟩⟩
  | files tree =>
    obtain ⟨rfl, rfl⟩ := Prod.mk.inj h
    obtain ⟨hsound, hput⟩ := Tree.IsSound.put_spec (t := tree) hs rfl
    refine ⟨.files outage hsound, ?_⟩
    rcases hput with ⟨hr, hfiles⟩ | ⟨hr, hfiles⟩
    · refine .inl ⟨hr, fun k => ?_⟩
      simp only [find?, hfiles, Tree.segments_injective.eq_iff]
    · refine .inr ⟨hr, fun k => ?_⟩
      simp only [find?, hfiles]

/-- What keeps an object from being put is the store. -/
theorem put_error {e : Error} (h : ((ObjectStore.put key data).exec s).1 = .error e) :
    ∃ cause, e = .storage cause := by
  rw [ObjectStore.put, Effect.exec_ofFun] at h
  split at h
  · exact ⟨_, (Except.error.inj h).symm⟩
  split at h
  · split at h
    · rename_i hkey
      unfold validateKey at hkey
      split at hkey
      · cases hkey
      · obtain rfl := Except.error.inj hkey
        exact ⟨_, (Except.error.inj h).symm⟩
    · cases h
  · exact Tree.put_error h

/-! ## Reading -/

theorem get_snd : ((ObjectStore.get key).exec s).2 = s := by
  rw [ObjectStore.get, Effect.exec_ofFun]
  split
  · rfl
  · split
    · split <;> rfl
    · rfl

/-- An object that is there is read. -/
theorem get_eq (hs : s.IsSound) (hget : s.outage.get key = false) (hkey : isValidKey key = true)
    (hfind : s.find? key = some data) :
    (ObjectStore.get key).exec s = (.ok (some data), s) := by
  obtain ⟨objects, outage⟩ := s
  rw [ObjectStore.get, Effect.exec_ofFun, if_neg (by simpa using hget)]
  cases objects with
  | memory flat =>
    have hflat : flat.get? key = some data := hfind
    simp [validateKey, hkey, hflat]
  | files tree =>
    have htree : tree.get key = .ok (some data) := Tree.IsSound.get_eq_some hs hfind
    simp [htree]

/-- A reading that answers tells what is there. -/
theorem find?_of_get (hs : s.IsSound) {answer : Option Bytes}
    (h : ((ObjectStore.get key).exec s).1 = .ok answer) : s.find? key = answer := by
  obtain ⟨objects, outage⟩ := s
  rw [ObjectStore.get, Effect.exec_ofFun] at h
  split at h
  · cases h
  cases objects with
  | memory flat =>
    simp only at h
    split at h
    · cases h
    · exact Except.ok.inj h
  | files tree => exact Tree.IsSound.lookup_of_get hs h

/-! ## Deleting -/

/-- **Deleting an object.** Unless the store is out of order for the key, there is no object under it
afterwards, whatever the answer; no other key changes. -/
theorem delete_spec (hs : s.IsSound) (hdel : s.outage.delete key = false)
    (hkey : isValidKey key = true) {r : Except Error Bool}
    (h : (ObjectStore.delete key).exec s = (r, s')) :
    Later s s' ∧ (∀ k, s'.find? k = if k = key then none else s.find? k) ∧
      ((s.find? key).isSome = true → r = .ok true) := by
  obtain ⟨objects, outage⟩ := s
  rw [ObjectStore.delete, Effect.exec_ofFun, if_neg (by simpa using hdel)] at h
  cases objects with
  | memory flat =>
    simp only [validateKey, hkey, if_true] at h
    obtain ⟨rfl, rfl⟩ := Prod.mk.inj h
    refine ⟨.memory flat _ outage, fun k => by simp only [find?, flat.get?_delete], fun hsome => ?_⟩
    rw [flat.delete_fst]
    exact congrArg Except.ok hsome
  | files tree =>
    obtain ⟨rfl, rfl⟩ := Prod.mk.inj h
    obtain ⟨hsound, hfiles, hfound⟩ := Tree.IsSound.delete_spec (t := tree) hs rfl
    refine ⟨.files outage hsound, fun k => ?_, hfound⟩
    simp only [find?, hfiles, Tree.segments_injective.eq_iff]

/-- Whatever a deletion answers, it has at most removed the object under its key. -/
theorem delete_frame (hs : s.IsSound) {r : Except Error Bool}
    (h : (ObjectStore.delete key).exec s = (r, s')) :
    Later s s' ∧ ∀ k, s'.find? k = s.find? k ∨ (k = key ∧ s'.find? k = none) := by
  have hsame : s' = s → Later s s' ∧ ∀ k, s'.find? k = s.find? k ∨ (k = key ∧ s'.find? k = none) := by
    rintro rfl
    exact ⟨.refl _, fun _ => .inl rfl⟩
  by_cases hdel : s.outage.delete key = true
  · rw [ObjectStore.delete, Effect.exec_ofFun, if_pos hdel] at h
    exact hsame (Prod.mk.inj h).2.symm
  by_cases hkey : isValidKey key = true
  · obtain ⟨hlater, hfind, -⟩ := delete_spec hs (by simpa using hdel) hkey h
    refine ⟨hlater, ?_⟩
    intro k
    rw [hfind]
    split
    · rename_i heq
      exact .inr ⟨heq, rfl⟩
    · exact .inl rfl
  · rw [ObjectStore.delete, Effect.exec_ofFun, if_neg hdel] at h
    apply hsame
    obtain ⟨objects, outage⟩ := s
    cases objects with
    | memory flat =>
      simp only [validateKey, hkey] at h
      exact (Prod.mk.inj h).2.symm
    | files tree =>
      simp only [Tree.delete, Tree.pathFor_eq, hkey] at h
      exact (Prod.mk.inj h).2.symm

/-- In memory a deletion under a valid key answers, unless the store is out of order for it. -/
theorem delete_inMemory (hs : s.InMemory) (hdel : s.outage.delete key = false)
    (hkey : isValidKey key = true) :
    ((ObjectStore.delete key).exec s).1 = .ok (s.find? key).isSome := by
  obtain ⟨flat, hflat⟩ := hs
  simp [ObjectStore.delete, hdel, hflat, validateKey, hkey, flat.delete_fst, find?]

/-! ## Listing -/

theorem list_snd {start : String} : ((ObjectStore.list start).exec s).2 = s := by
  rw [ObjectStore.list, Effect.exec_ofFun]
  split
  · rfl
  · split <;> rfl

/-- **Listing.** A listing names objects that are there, under keys that begin as asked. Below a
directory it names every object without an unfinished name on the way. -/
theorem list_spec (hs : s.IsSound) {start : String} {keys : List String}
    (h : ((ObjectStore.list start).exec s).1 = .ok keys) :
    (∀ k ∈ keys, Text.startsWith k start = true ∧ (s.find? k).isSome = true) ∧
      ∀ d rest, d ≠ "" → start = d ++ "/" →
        (∀ name ∈ segments rest, Text.startsWith name tempStart = false) →
        (s.find? (start ++ rest)).isSome = true → start ++ rest ∈ keys := by
  obtain ⟨objects, outage⟩ := s
  rw [ObjectStore.list, Effect.exec_ofFun] at h
  split at h
  · cases h
  cases objects with
  | memory flat =>
    obtain rfl := Except.ok.inj h
    simp only [find?, flat.mem_list]
    exact ⟨fun k hk => hk.symm, fun d rest _ _ _ hfind => ⟨hfind, Text.startsWith_append _ _⟩⟩
  | files tree =>
    have hs : tree.IsSound := hs
    simp only [find?] at h ⊢
    refine ⟨fun k hk => hs.mem_of_list h hk, ?_⟩
    rintro d rest hd rfl hrest hfind
    exact hs.list_complete hd h hrest hfind

/-- In memory a listing is exact. -/
theorem list_inMemory (hs : s.InMemory) {start : String} (hlist : s.outage.list start = false) :
    ∃ keys, (ObjectStore.list start).exec s = (.ok keys, s) ∧
      ∀ k, k ∈ keys ↔ (s.find? k).isSome = true ∧ Text.startsWith k start = true := by
  obtain ⟨flat, hflat⟩ := hs
  refine ⟨flat.list start, by simp [ObjectStore.list, hlist, hflat], ?_⟩
  intro k
  rw [flat.mem_list, find?, hflat]

/-! ## Stores that answer every call -/

/-- The store is held in memory with ascending keys, and it is never out of order. -/
structure Orderly (s : ObjectStore) : Prop where
  outage : s.outage = {}
  ascending : ∃ flat, s.objects = .memory flat ∧ flat.IsAscending

theorem orderly_inMemory : Orderly .inMemory := ⟨rfl, {}, rfl, Flat.isAscending_empty⟩

namespace Orderly

variable {s : ObjectStore} {key : String}

theorem inMemory (h : Orderly s) : s.InMemory := h.ascending.imp fun _ hflat => hflat.1

theorem isSound (h : Orderly s) : s.IsSound := h.inMemory.isSound

theorem put (h : Orderly s) (hkey : isValidKey key = true) (data : Bytes) :
    ∃ s', (ObjectStore.put key data).exec s = (.ok (), s') ∧ Orderly s' ∧
      ∀ k, s'.find? k = if k = key then some data else s.find? k := by
  obtain ⟨flat, hflat, hascending⟩ := h.ascending
  refine ⟨{ s with objects := .memory (flat.put key data) }, ?_,
    ⟨h.outage, _, rfl, hascending.put key data⟩, ?_⟩
  · simp [ObjectStore.put, h.outage, hflat, validateKey, hkey]
  intro k
  simp only [find?, hflat, flat.get?_put]

theorem get (h : Orderly s) (hkey : isValidKey key = true) :
    (ObjectStore.get key).exec s = (.ok (s.find? key), s) := by
  obtain ⟨flat, hflat, -⟩ := h.ascending
  simp [ObjectStore.get, h.outage, hflat, validateKey, hkey, find?]

theorem delete (h : Orderly s) (hkey : isValidKey key = true) :
    ∃ s', (ObjectStore.delete key).exec s = (.ok (s.find? key).isSome, s') ∧ Orderly s' ∧
      ∀ k, s'.find? k = if k = key then none else s.find? k := by
  obtain ⟨flat, hflat, hascending⟩ := h.ascending
  refine ⟨{ s with objects := .memory (flat.delete key).2 }, ?_,
    ⟨h.outage, _, rfl, hascending.delete key⟩, ?_⟩
  · simp [ObjectStore.delete, h.outage, hflat, validateKey, hkey, find?, flat.delete_fst]
  intro k
  simp only [find?, hflat, flat.get?_delete]

theorem list (h : Orderly s) (start : String) :
    ∃ keys, (ObjectStore.list start).exec s = (.ok keys, s) ∧ keys.Pairwise (· < ·) ∧
      ∀ k, k ∈ keys ↔ (s.find? k).isSome = true ∧ Text.startsWith k start = true := by
  obtain ⟨flat, hflat, hascending⟩ := h.ascending
  refine ⟨flat.list start, by simp [ObjectStore.list, h.outage, hflat], hascending.list start, ?_⟩
  intro k
  rw [flat.mem_list, find?, hflat]

end Orderly

end Syndication.ObjectStore
