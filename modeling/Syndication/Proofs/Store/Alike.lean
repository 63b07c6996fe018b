import Syndication.Proofs.Store.Objects
import Syndication.Proofs.Store.Way

/-!
# Proofs.Store.Alike — an operation depends on its key, and is felt there alone

Two stores are alike at a key when nothing that is done under this key can tell them apart. In memory it
is enough that the same object is there; among files the way to the key counts too. An operation under a
key answers the same in stores that are alike there, and leaves them alike. At a key that lies apart from
it, the store is afterwards as it was before.

## Contents
* `IsTidy`, `Takes`, `Later.takes`, `IsSound.takes` — what is asked of a store and a key
* `AlikeAt`, `get_congr`, `put_congr`, `delete_congr`
* `OnlyAt`, `OnlyAt.alikeAt`, `onlyAt_put`, `onlyAt_delete`
-/

namespace Syndication.ObjectStore

open Store

/-- Every object can be reached, and directories stand in directories. In memory this is always so. -/
def IsTidy (s : ObjectStore) : Prop :=
  match s.objects with
  | .memory _ => True
  | .files tree => tree.IsSound ∧ tree.IsRooted

/-- The names in a key are not too long for the store. -/
def Takes (s : ObjectStore) (key : String) : Prop :=
  match s.objects with
  | .memory _ => True
  | .files _ => Fits (segments key)

theorem isTidy_inMemory : inMemory.IsTidy := trivial

theorem isTidy_onFiles : onFiles.IsTidy := ⟨Tree.isSound_empty, Tree.isRooted_empty⟩

theorem IsTidy.isSound {s : ObjectStore} (h : s.IsTidy) : s.IsSound := by
  obtain ⟨objects, outage⟩ := s
  cases objects with
  | memory flat => trivial
  | files tree => exact h.1

/-- A store takes a key if its names fit where those of another one do that it takes. -/
theorem Takes.imp {s : ObjectStore} {key key' : String} (h : s.Takes key)
    (hfits : Fits (segments key) → Fits (segments key')) : s.Takes key' := by
  obtain ⟨objects, outage⟩ := s
  cases objects with
  | memory flat => trivial
  | files tree => exact hfits h

/-- A later state of a store takes what it took. -/
theorem Later.takes {s s' : ObjectStore} {key : String} (h : Later s s') (htakes : s.Takes key) :
    s'.Takes key := by
  obtain ⟨objects, outage⟩ := s
  obtain ⟨objects', outage'⟩ := s'
  cases objects' with
  | memory flat => trivial
  | files tree' =>
    cases objects with
    | memory flat =>
      obtain ⟨flat', hflat⟩ := h.inMemory ⟨flat, rfl⟩
      cases hflat
    | files tree => exact htakes

/-- What is there was taken. -/
theorem IsSound.takes {s : ObjectStore} {key : String} {data : Bytes} (h : s.IsSound)
    (hfind : s.find? key = some data) : s.Takes key := by
  obtain ⟨objects, outage⟩ := s
  cases objects with
  | memory flat => trivial
  | files tree => exact fun name hname => (h.names _ (Tree.mem_places_of_lookup hfind) name hname).1

/-- At a key one store is as another, and both are out of order for the same calls. -/
inductive AlikeAt (key : String) : ObjectStore → ObjectStore → Prop
  | memory (f g : Flat) (outage : Outage) (same : f.get? key = g.get? key) :
      AlikeAt key ⟨.memory f, outage⟩ ⟨.memory g, outage⟩
  | files (t u : Tree) (outage : Outage) (same : Tree.AlikeAt (segments key) t u) :
      AlikeAt key ⟨.files t, outage⟩ ⟨.files u, outage⟩

variable {s s' t t' u : ObjectStore} {key : String} {keys : List String} {data : Bytes}

namespace AlikeAt

theorem refl (key : String) (s : ObjectStore) : AlikeAt key s s := by
  obtain ⟨objects, outage⟩ := s
  cases objects with
  | memory flat => exact .memory flat flat outage rfl
  | files tree => exact .files tree tree outage (.refl _ _)

theorem symm (h : AlikeAt key s t) : AlikeAt key t s := by
  cases h with
  | memory f g outage same => exact .memory g f outage same.symm
  | files t u outage same => exact .files u t outage same.symm

theorem trans (h : AlikeAt key s t) (h' : AlikeAt key t u) : AlikeAt key s u := by
  cases h with
  | memory f g outage same =>
    cases h' with
    | memory _ g' _ same' => exact .memory f g' outage (same.trans same')
  | files t u outage same =>
    cases h' with
    | files _ u' _ same' => exact .files t u' outage (same.trans same')

theorem find?_eq (h : AlikeAt key s t) : s.find? key = t.find? key := by
  cases h with
  | memory f g outage same => exact same
  | files t u outage same => exact same.file

end AlikeAt

/-! ## What an operation depends on -/

section Answers

variable (hs : s.IsTidy) (ht : t.IsTidy) (htakes : s.Takes key) (h : AlikeAt key s t)
include hs ht htakes h

/-- **Reading** depends on the key alone. -/
theorem get_congr : ((ObjectStore.get key).exec s).1 = ((ObjectStore.get key).exec t).1 := by
  rw [ObjectStore.get, Effect.exec_ofFun, Effect.exec_ofFun]
  cases h with
  | memory f g outage same =>
    simp only [same]
    split
    · rfl
    · split <;> rfl
  | files t u outage same =>
    simp only [Tree.get_congr hs.2 hs.1 ht.2 ht.1 htakes same]
    split <;> rfl

/-- **Putting** depends on the key alone, and so does what it leaves there. -/
theorem put_congr (data : Bytes) :
    ((ObjectStore.put key data).exec s).1 = ((ObjectStore.put key data).exec t).1 ∧
      AlikeAt key ((ObjectStore.put key data).exec s).2 ((ObjectStore.put key data).exec t).2 := by
  rw [ObjectStore.put, Effect.exec_ofFun, Effect.exec_ofFun]
  cases h with
  | memory f g outage same =>
    simp only
    split
    · exact ⟨rfl, .memory f g outage same⟩
    · split
      · exact ⟨rfl, .memory f g outage same⟩
      · refine ⟨rfl, .memory _ _ outage ?_⟩
        rw [Flat.get?_put, Flat.get?_put, if_pos rfl, if_pos rfl]
  | files t u outage same =>
    obtain ⟨hanswer, halike⟩ := Tree.put_congr hs.2 hs.1 ht.2 ht.1 htakes same data
    simp only
    split
    · exact ⟨rfl, .files t u outage same⟩
    · exact ⟨hanswer, .files _ _ outage halike⟩

/-- **Deleting** depends on the key alone, and so does what it leaves there. -/
theorem delete_congr :
    ((ObjectStore.delete key).exec s).1 = ((ObjectStore.delete key).exec t).1 ∧
      AlikeAt key ((ObjectStore.delete key).exec s).2 ((ObjectStore.delete key).exec t).2 := by
  rw [ObjectStore.delete, Effect.exec_ofFun, Effect.exec_ofFun]
  cases h with
  | memory f g outage same =>
    simp only
    split
    · exact ⟨rfl, .memory f g outage same⟩
    · split
      · exact ⟨rfl, .memory f g outage same⟩
      · have hfound : (f.delete key).1 = (g.delete key).1 := by
          rw [Flat.delete_fst, Flat.delete_fst, same]
        refine ⟨congrArg Except.ok hfound, .memory _ _ outage ?_⟩
        rw [Flat.get?_delete, Flat.get?_delete, if_pos rfl, if_pos rfl]
  | files t u outage same =>
    obtain ⟨hanswer, halike⟩ := Tree.delete_congr hs.2 hs.1 ht.2 ht.1 htakes same
    simp only
    split
    · exact ⟨rfl, .files t u outage same⟩
    · exact ⟨hanswer, .files _ _ outage halike⟩

end Answers

/-! ## What an operation changes -/

/-- A store that has changed under these keys. No other object differs, and where a key lies apart from
all of them nothing that is done under it can tell a difference. -/
structure OnlyAt (keys : List String) (s s' : ObjectStore) : Prop where
  tidy : s.IsTidy → s'.IsTidy
  takes : ∀ k, s'.Takes k ↔ s.Takes k
  find : ∀ k, k ∉ keys → s'.find? k = s.find? k
  alike : ∀ k, (∀ key ∈ keys, Apart (segments k) (segments key)) → AlikeAt k s s'

namespace OnlyAt

theorem refl (keys : List String) (s : ObjectStore) : OnlyAt keys s s :=
  ⟨id, fun _ => Iff.rfl, fun _ _ => rfl, fun k _ => .refl k s⟩

theorem trans (h : OnlyAt keys s t) (h' : OnlyAt keys t u) : OnlyAt keys s u where
  tidy := h'.tidy ∘ h.tidy
  takes := fun k => (h'.takes k).trans (h.takes k)
  find := fun k hk => (h'.find k hk).trans (h.find k hk)
  alike := fun k hk => (h.alike k hk).trans (h'.alike k hk)

theorem mono (h : OnlyAt keys s t) {more : List String} (hmore : keys ⊆ more) : OnlyAt more s t where
  tidy := h.tidy
  takes := h.takes
  find := fun k hk => h.find k fun hmem => hk (hmore hmem)
  alike := fun k hk => h.alike k fun key hmem => hk key (hmore hmem)

/-- Stores that are alike at a key stay alike there while both change under another that lies apart. -/
theorem alikeAt {k : String} (h : OnlyAt [k] s s') (h' : OnlyAt [k] t t')
    (hkey : Apart (segments key) (segments k)) (halike : AlikeAt key s t) : AlikeAt key s' t' := by
  have hapart : ∀ k' ∈ [k], Apart (segments key) (segments k') := by
    intro k' hk'
    rwa [List.mem_singleton.mp hk']
  exact (h.alike key hapart).symm.trans (halike.trans (h'.alike key hapart))

theorem memory {f g : Flat} (outage : Outage) (h : ∀ k, k ∉ keys → g.get? k = f.get? k) :
    OnlyAt keys ⟨.memory f, outage⟩ ⟨.memory g, outage⟩ where
  tidy := fun _ => trivial
  takes := fun _ => Iff.rfl
  find := h
  alike := fun k hk => .memory f g outage (h k fun hmem => (hk k hmem).ne rfl).symm

theorem files {t t' : Tree} (outage : Outage) (htidy : t'.IsSound ∧ t'.IsRooted)
    (h : Tree.OnWay (segments key) t t') : OnlyAt [key] ⟨.files t, outage⟩ ⟨.files t', outage⟩ where
  tidy := fun _ => htidy
  takes := fun _ => Iff.rfl
  find := fun _ hk => h.files _ fun heq => hk (List.mem_singleton.mpr (Tree.segments_injective heq))
  alike := fun _ hk => .files t t' outage (h.alikeAt (hk key (List.mem_singleton_self key)))

end OnlyAt

/-- **A put** is felt under its key alone. -/
theorem onlyAt_put (hs : s.IsTidy) (key : String) (data : Bytes) :
    OnlyAt [key] s ((ObjectStore.put key data).exec s).2 := by
  obtain ⟨objects, outage⟩ := s
  rw [ObjectStore.put, Effect.exec_ofFun]
  split
  · exact .refl _ _
  cases objects with
  | memory flat =>
    simp only
    split
    · exact .refl _ _
    · refine .memory outage fun k hk => ?_
      rw [Flat.get?_put, if_neg fun heq => hk (List.mem_singleton.mpr heq)]
  | files tree =>
    have hsound := (hs.1.put_spec (Prod.eta (tree.put key data)).symm).1
    exact .files outage ⟨hsound, hs.2.put key data⟩ (Tree.onWay_put hs.1 key data)

/-- **A deletion** is felt under its key alone. -/
theorem onlyAt_delete (hs : s.IsTidy) (key : String) :
    OnlyAt [key] s ((ObjectStore.delete key).exec s).2 := by
  obtain ⟨objects, outage⟩ := s
  rw [ObjectStore.delete, Effect.exec_ofFun]
  split
  · exact .refl _ _
  cases objects with
  | memory flat =>
    simp only
    split
    · exact .refl _ _
    · refine .memory outage fun k hk => ?_
      rw [Flat.get?_delete, if_neg fun heq => hk (List.mem_singleton.mpr heq)]
  | files tree =>
    have hsound := (hs.1.delete_spec (Prod.eta (tree.delete key)).symm).1
    exact .files outage ⟨hsound, hs.2.delete key⟩ (Tree.onWay_delete hs.1 key)

end Syndication.ObjectStore
