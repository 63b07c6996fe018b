import Mathlib.Data.List.Nodup
import Syndication.Proofs.Store.Objects
import Syndication.Session

/-!
# Proofs.Session.Registry — what each step does to the live handles

A key leads to a slot and the slot to the handle that fills it, so a registry is seen as a function from
keys to live handles. Each step changes that function at one key at most: an opening that loads makes a
handle live, a closing ends one, and nothing that is done with a buffer changes which handles are live.

## Contents
* `liveHandle?`, `keyOf`, `Consistent`           — the live handles of a registry
* `mem_live_iff`, `liveHandle?_fill`
* `Opened`, `opened_openKey`                     — opening
* `liveHandle?_modify`, `contents_modify`        — buffers
* `Flushed`, `flushed_flushHandle`               — flushing
* `Closed`, `closed_closeKey`                    — closing
-/

namespace Syndication.Session

open ObjectStore

/-! ## Live handles -/

/-- The live handle of a key. -/
def liveHandle? (key : String) (r : SessionRegistry) : Option Nat :=
  (r.registered.lookup key).bind (handleIn? · r)

/-- The key of a handle. -/
def keyOf (r : SessionRegistry) (handle : Nat) : String :=
  match handle? r handle with
  | some h => h.key
  | none => ""

/-- The key can be opened. -/
def IsAccepted (key : String) : Prop := Store.isValidKey (storageKey key) = true

/-- **A registry in order**: a key leads to one slot, which is a slot of that key and holds a handle of
that key and of this registry, if it holds one; handles are of keys that can be opened. -/
structure Consistent (r : SessionRegistry) : Prop where
  nodup : (r.registered.map (·.1)).Nodup
  slots : ∀ e ∈ r.registered, ∃ s, r.slots[e.2]? = some s ∧ s.key = e.1 ∧
    ∀ h ∈ s.handle, ∃ x, handle? r h = some x ∧ x.key = e.1 ∧ x.generation = r.generation
  accepted : ∀ x ∈ r.handles, IsAccepted x.key

variable {r : SessionRegistry} {key k : String} {slot handle : Nat} {w w' : SessionWorld}

theorem lookup_eq (key : String) (r : SessionRegistry) : lookup key r =
    (r.registered.lookup key).bind fun slot => (handleIn? slot r).map (slot, ·) := by
  unfold lookup
  cases r.registered.lookup key with
  | none => rfl
  | some slot => cases hin : handleIn? slot r <;> simp [hin]

theorem lookup_of_none (h : liveHandle? key r = none) : lookup key r = none := by
  rw [lookup_eq]
  unfold liveHandle? at h
  cases hslot : r.registered.lookup key with
  | none => rfl
  | some slot =>
    rw [hslot] at h
    have hin : handleIn? slot r = none := h
    rw [Option.bind_some, hin]
    rfl

theorem lookup_of_live (h : liveHandle? key r = some handle) :
    ∃ slot, r.registered.lookup key = some slot ∧ lookup key r = some (slot, handle) := by
  obtain ⟨slot, hslot, hin⟩ := Option.bind_eq_some_iff.mp h
  refine ⟨slot, hslot, ?_⟩
  rw [lookup_eq, hslot, Option.bind_some, hin]
  rfl

theorem mem_registered_of_lookup (h : r.registered.lookup key = some slot) :
    (key, slot) ∈ r.registered := by
  obtain ⟨l₁, l₂, heq, -⟩ := List.lookup_eq_some_iff.mp h
  rw [heq]
  simp

theorem lookup_of_mem_registered (hr : Consistent r) (h : (key, slot) ∈ r.registered) :
    r.registered.lookup key = some slot := by
  have hsome : (r.registered.lookup key).isSome = true :=
    (Store.isSome_lookup_iff _ _).mpr (List.mem_map_of_mem h)
  obtain ⟨slot', hslot'⟩ := Option.isSome_iff_exists.mp hsome
  have hmem := mem_registered_of_lookup hslot'
  have heq : (key, slot') = (key, slot) := List.inj_on_of_nodup_map hr.nodup hmem h rfl
  rw [hslot', (Prod.mk.inj heq).2]

/-- A live handle is a handle of its key and of this registry. -/
theorem Consistent.handle?_of_live (hr : Consistent r) (h : liveHandle? key r = some handle) :
    ∃ x, handle? r handle = some x ∧ x.key = key ∧ x.generation = r.generation := by
  obtain ⟨slot, hslot, hin⟩ := Option.bind_eq_some_iff.mp h
  obtain ⟨s, hs, -, hhandle⟩ := hr.slots _ (mem_registered_of_lookup hslot)
  rw [handleIn?, hs] at hin
  exact hhandle handle hin

theorem Consistent.keyOf_of_live (hr : Consistent r) (h : liveHandle? key r = some handle) :
    keyOf r handle = key := by
  obtain ⟨x, hx, hkey, -⟩ := hr.handle?_of_live h
  rw [keyOf, hx]
  exact hkey

/-- The live handles are those that keys lead to. -/
theorem mem_live_iff (hr : Consistent r) : handle ∈ live r ↔ ∃ key, liveHandle? key r = some handle := by
  rw [live, List.mem_filterMap]
  constructor
  · rintro ⟨⟨key, slot⟩, hmem, hin⟩
    exact ⟨key, by rw [liveHandle?, lookup_of_mem_registered hr hmem]; exact hin⟩
  · rintro ⟨key, h⟩
    obtain ⟨slot, hslot, hin⟩ := Option.bind_eq_some_iff.mp h
    exact ⟨(key, slot), mem_registered_of_lookup hslot, hin⟩

theorem liveHandle?_congr {r' : SessionRegistry} (hregistered : r'.registered = r.registered)
    (hslots : r'.slots = r.slots) : liveHandle? key r' = liveHandle? key r := by
  unfold liveHandle? handleIn?
  rw [hregistered, hslots]

theorem keyOf_congr {r' : SessionRegistry} (h : r'.handles = r.handles) (handle : Nat) :
    keyOf r' handle = keyOf r handle := by
  unfold keyOf handle?
  rw [h]

theorem contents_congr {r' : SessionRegistry} (h : r'.handles = r.handles) :
    contents r' = contents r := by
  funext handle
  unfold contents handle?
  rw [h]

/-! ## Finding a slot -/

/-- A key leads to the slot that is found for it, and the other keys lead where they led. -/
theorem lookup_locate (key k : String) (r : SessionRegistry) :
    (locate key r).2.registered.lookup k =
      if k = key then some (locate key r).1 else r.registered.lookup k := by
  unfold locate
  split
  · rename_i h
    split
    · rename_i hk
      rw [hk, h]
    · rfl
  · rename_i h
    rw [List.lookup_append, Store.lookup_cons_eq]
    split
    · rename_i hk
      rw [hk, h]
      rfl
    · rw [List.lookup_nil, Option.or_none]

theorem locate_fst : (locate key r).2.registered.lookup key = some (locate key r).1 := by
  rw [lookup_locate, if_pos rfl]

theorem locate_eq_self (h : r.registered.lookup key = some slot) : locate key r = (slot, r) := by
  rw [locate, h]

theorem locate_handles : (locate key r).2.handles = r.handles := by
  unfold locate
  split <;> rfl

theorem locate_generation : (locate key r).2.generation = r.generation := by
  unfold locate
  split <;> rfl

/-- Finding a slot makes one at most, behind the others, and it is empty. -/
theorem locate_slots (key : String) (r : SessionRegistry) : (locate key r).2.slots = r.slots ∨
    (locate key r).1 = r.slots.length ∧ (locate key r).2.slots = r.slots ++ [⟨key, none⟩] := by
  unfold locate
  split
  · exact .inl rfl
  · exact .inr ⟨rfl, rfl⟩

/-- A slot that is made holds no handle. -/
theorem handleIn?_locate : handleIn? slot (locate key r).2 = handleIn? slot r := by
  unfold handleIn?
  rcases locate_slots key r with h | ⟨-, h⟩
  · rw [h]
  · rw [h, List.getElem?_append]
    split
    · rfl
    · rename_i hle
      rw [List.getElem?_eq_none (Nat.le_of_not_lt hle)]
      cases hnew : [(⟨key, none⟩ : SessionSlot)][slot - r.slots.length]? with
      | none => rfl
      | some s =>
        rw [List.mem_singleton.mp (List.mem_of_getElem? hnew)]
        rfl

theorem liveHandle?_locate : liveHandle? k (locate key r).2 = liveHandle? k r := by
  have hbehind : handleIn? r.slots.length r = none := by simp [handleIn?]
  simp only [liveHandle?, handleIn?_locate, lookup_locate]
  split
  · rename_i hk
    unfold locate
    cases hlookup : r.registered.lookup key with
    | none => rw [hk, hlookup, Option.bind_some, Option.bind_none, hbehind]
    | some slot => rw [hk, hlookup]
  · rfl

theorem consistent_locate (hr : Consistent r) : Consistent (locate key r).2 := by
  unfold locate
  split
  · exact hr
  rename_i hnone
  have hnew : key ∉ r.registered.map (·.1) := by
    rw [← Store.isSome_lookup_iff, hnone]
    simp
  refine ⟨?_, ?_, hr.accepted⟩
  · rw [List.map_append, List.nodup_append]
    refine ⟨hr.nodup, List.nodup_singleton _, ?_⟩
    rintro _ hold _ hlast rfl
    rw [List.mem_singleton.mp hlast] at hold
    exact hnew hold
  · intro e he
    rcases List.mem_append.mp he with hold | hlast
    · obtain ⟨s, hs, hkey, hhandle⟩ := hr.slots e hold
      refine ⟨s, ?_, hkey, hhandle⟩
      rw [List.getElem?_append_left (List.getElem?_eq_some_iff.mp hs).1]
      exact hs
    · rw [List.mem_singleton.mp hlast]
      refine ⟨⟨key, none⟩, by simp, rfl, fun h hh => by cases hh⟩

/-! ## Filling a slot -/

/-- The slots of two keys are two slots. -/
theorem Consistent.eq_of_slot (hr : Consistent r) (h : r.registered.lookup key = some slot)
    (h' : r.registered.lookup k = some slot) : k = key := by
  obtain ⟨s, hs, hkey, -⟩ := hr.slots _ (mem_registered_of_lookup h)
  obtain ⟨s', hs', hkey', -⟩ := hr.slots _ (mem_registered_of_lookup h')
  obtain rfl : s = s' := Option.some.inj (hs.symm.trans hs')
  exact hkey'.symm.trans hkey

/-- The handle that fills the slot of a key is the live handle of that key. -/
theorem liveHandle?_fill (hr : Consistent r) (h : r.registered.lookup key = some slot) (data : Bytes) :
    liveHandle? k (fill slot key data r).2 = if k = key then some r.handles.length else liveHandle? k r := by
  unfold liveHandle? handleIn? fill
  simp only [List.getElem?_modify]
  split
  · rename_i heq
    subst heq
    obtain ⟨s, hs, -⟩ := hr.slots _ (mem_registered_of_lookup h)
    rw [h]
    simp [hs]
  · rename_i hne
    cases hlookup : r.registered.lookup k with
    | none => rfl
    | some slot' =>
      have hother : slot ≠ slot' := fun heq => hne (hr.eq_of_slot h (heq ▸ hlookup))
      simp [hother]

theorem consistent_fill (hr : Consistent r) (h : r.registered.lookup key = some slot)
    (haccepted : IsAccepted key) (data : Bytes) : Consistent (fill slot key data r).2 := by
  refine ⟨hr.nodup, ?_, ?_⟩
  · intro e he
    obtain ⟨s, hs, hkey, hhandle⟩ := hr.slots e he
    -- the slot that is filled is that of this key alone
    by_cases hslot : slot = e.2
    · have hown : e.1 = key := hr.eq_of_slot h (hslot ▸ lookup_of_mem_registered hr he)
      refine ⟨{ s with handle := some r.handles.length }, ?_, hkey, ?_⟩
      · show (r.slots.modify slot _)[e.2]? = _
        rw [List.getElem?_modify, hs, hslot]
        simp
      · intro handle hin
        obtain rfl : r.handles.length = handle := Option.some.inj hin
        exact ⟨⟨key, data, r.generation⟩, by simp [handle?, fill], hown.symm, rfl⟩
    · refine ⟨s, ?_, hkey, ?_⟩
      · show (r.slots.modify slot _)[e.2]? = _
        rw [List.getElem?_modify, hs]
        simp [hslot]
      · intro handle hin
        obtain ⟨x, hx, hrest⟩ := hhandle handle hin
        refine ⟨x, ?_, hrest⟩
        show (r.handles ++ [_])[handle]? = some x
        rw [List.getElem?_append_left (List.getElem?_eq_some_iff.mp hx).1]
        exact hx
  · intro x hx
    rcases List.mem_append.mp hx with hold | hlast
    · exact hr.accepted x hold
    · rw [List.mem_singleton.mp hlast]
      exact haccepted

/-! ## Opening -/

/-- **What an opening comes to.** It answers the live handle of the key; if there is none it reads the
store and makes one, or fails. -/
inductive Opened (key : String) (w : SessionWorld) : Except Error Nat → SessionWorld → Prop
  | shared (handle : Nat) (live : liveHandle? key w.registry = some handle) :
      Opened key w (.ok handle) w
  | loaded (r : SessionRegistry) (data : Option Bytes) (unopened : liveHandle? key w.registry = none)
      (read : ((ObjectStore.get (storageKey key)).exec w.store).1 = .ok data)
      (handles : r.handles = w.registry.handles ++ [⟨key, data.getD [], w.registry.generation⟩])
      (generation : r.generation = w.registry.generation)
      (live : ∀ k, liveHandle? k r = if k = key then some w.registry.handles.length
        else liveHandle? k w.registry) :
      Opened key w (.ok w.registry.handles.length) ⟨r, w.store⟩
  | failed (e : Error) (r : SessionRegistry) (handles : r.handles = w.registry.handles)
      (generation : r.generation = w.registry.generation)
      (live : ∀ k, liveHandle? k r = liveHandle? k w.registry)
      (cause : ¬ IsAccepted key ∨ liveHandle? key w.registry = none ∧
        ((ObjectStore.get (storageKey key)).exec w.store).1 = .error e) :
      Opened key w (.error e) ⟨r, w.store⟩

/-- A handle that is answered is live. -/
theorem Opened.live (h : Opened key w (.ok handle) w') : liveHandle? key w'.registry = some handle := by
  cases h with
  | shared _ live => exact live
  | loaded r data unopened read handles generation live => exact (live key).trans (if_pos rfl)

/-- An opening fails only if the key cannot be opened or the store cannot be read. -/
theorem Opened.cause {e : Error} (h : Opened key w (.error e) w') : ¬ IsAccepted key ∨
    liveHandle? key w.registry = none ∧ ((ObjectStore.get (storageKey key)).exec w.store).1 = .error e := by
  cases h with
  | failed _ r handles generation live cause => exact cause

section Added

variable {r' : SessionRegistry} {x : SessionHandle}

theorem handle?_added (h : r'.handles = r.handles ++ [x]) (i : Nat) :
    handle? r' i = if i = r.handles.length then some x else handle? r i := by
  rw [handle?, h, List.getElem?_append]
  by_cases hnew : i = r.handles.length
  · simp [hnew]
  by_cases hold : i < r.handles.length
  · rw [if_pos hold, if_neg hnew, handle?]
  · rw [if_neg hold, if_neg hnew, handle?, List.getElem?_eq_none (by simp; omega),
      List.getElem?_eq_none (by omega)]

theorem keyOf_added (h : r'.handles = r.handles ++ [x]) (i : Nat) :
    keyOf r' i = if i = r.handles.length then x.key else keyOf r i := by
  rw [keyOf, keyOf, handle?_added h]
  by_cases hnew : i = r.handles.length <;> simp [hnew]

theorem contents_added (h : r'.handles = r.handles ++ [x]) (i : Nat) :
    contents r' i = if i = r.handles.length then x.buffer else contents r i := by
  rw [contents, contents, handle?_added h]
  by_cases hnew : i = r.handles.length <;> simp [hnew]

end Added

theorem exec_load_of_some (h : handleIn? slot w.registry = some handle) (key : String) :
    (load slot key).exec w = (.ok handle, w) := by
  rw [load, Effect.exec_bind_ok (Effect.exec_get w), h]
  rfl

theorem exec_load_of_none (h : handleIn? slot w.registry = none) (key : String) :
    (load slot key).exec w = match ((ObjectStore.get (storageKey key)).exec w.store).1 with
      | .ok data => (.ok w.registry.handles.length, ⟨(fill slot key (data.getD []) w.registry).2, w.store⟩)
      | .error e => (.error e, w) := by
  rw [load, Effect.exec_bind_ok (Effect.exec_get w), h]
  show (onStore (ObjectStore.get (storageKey key)) >>= _).exec w = _
  rw [Effect.exec_bind]
  simp only [onStore, Effect.exec_on, get_snd]
  split
  · rename_i heq
    obtain ⟨hanswer, rfl⟩ := Prod.mk.inj heq
    rw [hanswer]
    rfl
  · rename_i heq
    obtain ⟨hanswer, rfl⟩ := Prod.mk.inj heq
    rw [hanswer]

/-- **Opening a key** keeps the registry in order. -/
theorem opened_openKey (hw : Consistent w.registry) (key : String) :
    Opened key w ((openKey key).exec w).1 ((openKey key).exec w).2 ∧
      Consistent ((openKey key).exec w).2.registry := by
  unfold openKey Store.validateKey
  by_cases haccepted : Store.isValidKey (storageKey key) = true
  · rw [if_pos haccepted]
    simp only
    have hlocate : (onRegistry (locate key)).exec w =
        (.ok (locate key w.registry).1, ⟨(locate key w.registry).2, w.store⟩) := rfl
    rw [Effect.exec_bind_ok hlocate]
    -- the slot that is found holds the live handle of the key, if there is one
    have hslot : (locate key w.registry).2.registered.lookup key = some (locate key w.registry).1 :=
      locate_fst
    have hconsistent : Consistent (locate key w.registry).2 := consistent_locate hw
    have hlive : ∀ k, liveHandle? k (locate key w.registry).2 = liveHandle? k w.registry := fun k =>
      liveHandle?_locate
    have hin : handleIn? (locate key w.registry).1 (locate key w.registry).2 =
        liveHandle? key w.registry := by
      rw [← hlive, liveHandle?, hslot]
      rfl
    cases hopen : liveHandle? key w.registry with
    | some handle =>
      rw [hopen] at hin
      obtain ⟨slot, hslot, -⟩ := Option.bind_eq_some_iff.mp hopen
      rw [exec_load_of_some hin]
      rw [locate_eq_self hslot] at hconsistent ⊢
      exact ⟨.shared handle hopen, hconsistent⟩
    | none =>
      rw [hopen] at hin
      rw [exec_load_of_none hin]
      simp only
      cases hread : ((ObjectStore.get (storageKey key)).exec w.store).1 with
      | ok data =>
        refine ⟨?_, consistent_fill hconsistent hslot haccepted _⟩
        rw [locate_handles]
        refine .loaded _ data hopen hread ?_ locate_generation fun k => ?_
        · show (locate key w.registry).2.handles ++ [⟨key, _, (locate key w.registry).2.generation⟩] = _
          rw [locate_handles, locate_generation]
        · rw [liveHandle?_fill hconsistent hslot, locate_handles, hlive]
      | error e =>
        exact ⟨.failed e _ locate_handles locate_generation hlive (.inr ⟨hopen, hread⟩), hconsistent⟩
  · rw [if_neg haccepted]
    exact ⟨.failed _ _ rfl rfl (fun _ => rfl) (.inl haccepted), hw⟩

/-! ## Buffers -/

theorem handle?_modify (change : Bytes → Bytes) (h : Nat) :
    handle? (modify handle change r) h =
      (handle? r h).map fun x => if handle = h then { x with buffer := change x.buffer } else x := by
  unfold handle? modify
  rw [List.getElem?_modify]
  cases r.handles[h]? with
  | none => rfl
  | some x =>
    show some _ = some _
    split <;> rfl

theorem liveHandle?_modify (change : Bytes → Bytes) :
    liveHandle? key (modify handle change r) = liveHandle? key r := liveHandle?_congr rfl rfl

theorem keyOf_modify (change : Bytes → Bytes) (h : Nat) :
    keyOf (modify handle change r) h = keyOf r h := by
  unfold keyOf
  rw [handle?_modify]
  cases handle? r h with
  | none => rfl
  | some x =>
    show SessionHandle.key (if handle = h then { x with buffer := change x.buffer } else x) = x.key
    split <;> rfl

/-- The buffer of a handle is changed and no other. -/
theorem contents_modify (change : Bytes → Bytes) (hhandle : handle < r.handles.length) (h : Nat) :
    contents (modify handle change r) h = if handle = h then change (contents r h) else contents r h := by
  rw [contents, contents, handle?_modify]
  cases hx : handle? r h with
  | none =>
    have hne : handle ≠ h := fun heq => by
      rw [handle?, List.getElem?_eq_none_iff] at hx
      omega
    rw [if_neg hne]
    rfl
  | some x =>
    show SessionHandle.buffer (if handle = h then { x with buffer := change x.buffer } else x) = _
    split <;> rfl

theorem consistent_modify (hr : Consistent r) (change : Bytes → Bytes) :
    Consistent (modify handle change r) := by
  refine ⟨hr.nodup, ?_, ?_⟩
  · intro e he
    obtain ⟨s, hs, hkey, hhandle⟩ := hr.slots e he
    refine ⟨s, hs, hkey, fun h hin => ?_⟩
    obtain ⟨x, hx, hrest⟩ := hhandle h hin
    rw [handle?_modify, hx]
    refine ⟨_, rfl, ?_⟩
    split <;> exact hrest
  · intro x hx
    obtain ⟨i, hi⟩ := List.mem_iff_getElem?.mp hx
    have hfound : handle? (modify handle change r) i = some x := hi
    rw [handle?_modify] at hfound
    obtain ⟨x₀, hx₀, rfl⟩ := Option.map_eq_some_iff.mp hfound
    have hold := hr.accepted x₀ (List.mem_of_getElem? hx₀)
    split <;> exact hold

/-! ## Flushing -/

/-- **What a flush comes to**: the buffer of the handle is put under its key, unless the buffer is empty or
the store fails. -/
inductive Flushed (handle : Nat) (w : SessionWorld) : Except Error Unit → SessionWorld → Prop
  | nothing (empty : contents w.registry handle = []) : Flushed handle w (.ok ()) w
  | written (x : SessionHandle) (s : ObjectStore) (found : handle? w.registry handle = some x)
      (filled : x.buffer ≠ []) (later : Later w.store s)
      (find : ∀ k, s.find? k = if k = storageKey x.key then some x.buffer else w.store.find? k) :
      Flushed handle w (.ok ()) ⟨w.registry, s⟩
  | failed (e : Error) (x : SessionHandle) (s : ObjectStore) (found : handle? w.registry handle = some x)
      (refused : ((ObjectStore.put (storageKey x.key) x.buffer).exec w.store).1 = .error e)
      (later : Later w.store s) (find : ∀ k, s.find? k = w.store.find? k) :
      Flushed handle w (.error e) ⟨w.registry, s⟩

theorem flushed_flushHandle (hw : w.store.IsSound) (handle : Nat) :
    Flushed handle w ((flushHandle handle).exec w).1 ((flushHandle handle).exec w).2 := by
  rw [flushHandle, Effect.exec_bind_ok (Effect.exec_get w)]
  cases hx : handle? w.registry handle with
  | none => exact .nothing (by rw [contents, hx])
  | some x =>
    simp only
    by_cases hempty : x.buffer.isEmpty = true
    · rw [if_pos hempty]
      exact .nothing (by rw [contents, hx]; exact List.isEmpty_iff.mp hempty)
    · rw [if_neg hempty]
      simp only [onStore, Effect.exec_on]
      rcases hput : (ObjectStore.put (storageKey x.key) x.buffer).exec w.store with ⟨answer, s⟩
      obtain ⟨hlater, ⟨rfl, hfind⟩ | ⟨⟨e, rfl⟩, hfind⟩⟩ := put_spec hw hput
      · exact .written x s hx (fun h => hempty (List.isEmpty_iff.mpr h)) hlater hfind
      · exact .failed e x s hx (by rw [hput]) hlater hfind

/-! ## Closing -/

@[simp] theorem evict_slots : (evict key slot r).slots = r.slots := by
  unfold evict
  split <;> rfl

@[simp] theorem evict_handles : (evict key slot r).handles = r.handles := by
  unfold evict
  split <;> rfl

@[simp] theorem evict_generation : (evict key slot r).generation = r.generation := by
  unfold evict
  split <;> rfl

/-- A key that leads to the slot leads nowhere any more, and the other keys lead where they led. -/
theorem lookup_evict (key k : String) (slot : Nat) (r : SessionRegistry) :
    (evict key slot r).registered.lookup k =
      if k = key ∧ r.registered.lookup key = some slot then none else r.registered.lookup k := by
  unfold evict
  split
  · rename_i h
    simp only [h, and_true]
    exact Store.lookup_filter_ne r.registered key k
  · rename_i h
    rw [if_neg fun hall => h hall.2]

theorem handleIn?_evict (s : Nat) : handleIn? s (evict key slot r) = handleIn? s r := by
  rw [handleIn?, evict_slots, handleIn?]

theorem liveHandle?_evict (hslot : r.registered.lookup key = some slot) :
    liveHandle? k (evict key slot r) = if k = key then none else liveHandle? k r := by
  simp only [liveHandle?, handleIn?_evict, lookup_evict, hslot, and_true]
  split <;> rfl

theorem consistent_evict (hr : Consistent r) : Consistent (evict key slot r) := by
  unfold evict
  split
  · refine ⟨(List.filter_sublist.map _).nodup hr.nodup, ?_, hr.accepted⟩
    exact fun e he => hr.slots e (List.mem_filter.mp he).1
  · exact hr

/-- **What closing a key comes to**: its live handle is flushed and is live no longer, unless the flush
fails. -/
inductive Closed (key : String) (w : SessionWorld) : Except Error Unit → SessionWorld → Prop
  | nothing (unopened : liveHandle? key w.registry = none) : Closed key w (.ok ()) w
  | closed (handle : Nat) (flushed : SessionWorld) (r : SessionRegistry)
      (live : liveHandle? key w.registry = some handle)
      (flush : Flushed handle w (.ok ()) flushed) (handles : r.handles = w.registry.handles)
      (generation : r.generation = w.registry.generation)
      (ended : ∀ k, liveHandle? k r = if k = key then none else liveHandle? k w.registry) :
      Closed key w (.ok ()) ⟨r, flushed.store⟩
  | failed (handle : Nat) (e : Error) (w' : SessionWorld)
      (live : liveHandle? key w.registry = some handle)
      (flush : Flushed handle w (.error e) w') : Closed key w (.error e) w'

theorem Flushed.registry {answer : Except Error Unit} (h : Flushed handle w answer w') :
    w'.registry = w.registry := by
  cases h <;> rfl

theorem closed_closeKey (hw : Consistent w.registry) (hstore : w.store.IsSound) (key : String) :
    Closed key w ((closeKey key).exec w).1 ((closeKey key).exec w).2 ∧
      Consistent ((closeKey key).exec w).2.registry := by
  rw [closeKey, Effect.exec_bind_ok (Effect.exec_get w)]
  cases hlive : liveHandle? key w.registry with
  | none =>
    rw [lookup_of_none hlive]
    exact ⟨.nothing hlive, hw⟩
  | some handle =>
    obtain ⟨slot, hslot, hlookup⟩ := lookup_of_live hlive
    rw [hlookup]
    have hflush := flushed_flushHandle hstore handle
    simp only
    rw [Effect.exec_bind]
    rcases hexec : (flushHandle handle).exec w with ⟨_ | ⟨⟩, w'⟩
    · rw [hexec] at hflush
      exact ⟨.failed handle _ w' hlive hflush, hflush.registry ▸ hw⟩
    · rw [hexec] at hflush
      have hregistry : w'.registry = w.registry := hflush.registry
      show Closed key w (.ok ()) ⟨evict key slot w'.registry, w'.store⟩ ∧
        Consistent (evict key slot w'.registry)
      rw [hregistry]
      exact ⟨.closed handle w' _ hlive hflush evict_handles evict_generation fun k =>
        liveHandle?_evict hslot, consistent_evict hw⟩

end Syndication.Session
