import Mathlib.Data.List.Induction
import Syndication.Proofs.Platform.Delivery
import Syndication.Proofs.Session.Registry

/-!
# Proofs.Session.Usage — what closing a session keeps

Any number of holders open keys, change buffers, flush and close, in any order. A handle stays live until
its key is closed, by whichever holder, or its registry is gone. Closing a handle that is live writes its
buffer; so does closing one whose registry is gone. But a handle whose key was closed before leads to
another handle of the key or to none, and closing it writes nothing of what it holds.

## Contents
* `Reliable`                                — a store that does not fail
* `Flushed.find?_ok`, `Closed.flushed`      — what is written
* `FlushedEach`                             — flushing all
* `Call`, `Usage`, `after`, `ofCalls`       — holders, one call after the other
* `Inv`, `inv_after`, `inv_ofCalls`
* `Closing`, `ofCalls_closing`, `ofCalls_closedTwice`
-/

namespace Syndication.Session

open ObjectStore

variable {r : SessionRegistry} {key : String} {handle : Nat} {w w' : SessionWorld}
  {start s s' : ObjectStore}

/-! ## Stores -/

theorem Flushed.sameBundles {answer : Except Error Unit} (h : Flushed handle w answer w') :
    SameBundles w.store w'.store := by
  cases h with
  | nothing empty => exact .refl _
  | written x s found filled later find =>
    exact ⟨later, fun k hk => by rw [find, if_neg (KeepsBundles.storageKey_ne hk x.key)]⟩
  | failed e x s found refused later find => exact ⟨later, fun k _ => find k⟩

/-- The store is held in memory and never out of order: its writes and readings succeed. -/
structure Reliable (s : ObjectStore) : Prop where
  inMemory : s.InMemory
  put : ∀ k, s.outage.put k = false
  get : ∀ k, s.outage.get k = false

theorem reliable_inMemory : Reliable .inMemory := ⟨⟨_, rfl⟩, fun _ => rfl, fun _ => rfl⟩

theorem Reliable.later (h : Reliable s) (hlater : Later s s') : Reliable s' where
  inMemory := hlater.inMemory h.inMemory
  put := hlater.outage ▸ h.put
  get := hlater.outage ▸ h.get

theorem Reliable.put_ok (h : Reliable s) (hkey : IsAccepted key) (data : Bytes) :
    ((ObjectStore.put (storageKey key) data).exec s).1 = .ok () := by
  obtain ⟨flat, hflat⟩ := h.inMemory
  have hvalid : Store.validateKey (storageKey key) = .ok () := if_pos hkey
  rw [ObjectStore.put, Effect.exec_ofFun, h.put, hflat]
  simp [hvalid]

theorem Reliable.get_ok (h : Reliable s) (hkey : IsAccepted key) :
    ((ObjectStore.get (storageKey key)).exec s).1 = .ok (s.find? (storageKey key)) := by
  obtain ⟨flat, hflat⟩ := h.inMemory
  have hvalid : Store.validateKey (storageKey key) = .ok () := if_pos hkey
  rw [ObjectStore.get, Effect.exec_ofFun, h.get, hflat, find?, hflat]
  simp [hvalid]

/-- Flushes do not fail if the store does not. -/
theorem Flushed.ok {answer : Except Error Unit} (h : Flushed handle w answer w')
    (hw : Consistent w.registry) (hstore : Reliable w.store) : answer = .ok () := by
  cases h with
  | nothing empty => rfl
  | written x s found filled later find => rfl
  | failed e x s found refused later find =>
    rw [hstore.put_ok (hw.accepted x (List.mem_of_getElem? found))] at refused
    cases refused

theorem Closed.ok {answer : Except Error Unit} (h : Closed key w answer w')
    (hw : Consistent w.registry) (hstore : Reliable w.store) : answer = .ok () := by
  cases h with
  | nothing unopened => rfl
  | closed handle flushed r live flush handles generation ended => rfl
  | failed handle e w' live flush => cases flush.ok hw hstore

/-- **A flush that succeeds** writes the buffer under its key, if it holds anything. -/
theorem Flushed.find?_ok (h : Flushed handle w (.ok ()) w') (k : String) :
    w'.store.find? k =
      if contents w.registry handle ≠ [] ∧ k = storageKey (keyOf w.registry handle) then
        some (contents w.registry handle)
      else w.store.find? k := by
  cases h with
  | nothing empty => rw [if_neg fun hfilled => hfilled.1 empty]
  | written x s found filled later find =>
    rw [contents, keyOf, found]
    exact (find k).trans (if_congr (and_iff_right filled).symm rfl rfl)

theorem Flushed.find?_error {e : Error} (h : Flushed handle w (.error e) w') (k : String) :
    w'.store.find? k = w.store.find? k := by
  cases h with
  | failed e x s found refused later find => exact find k

/-- To the store, closing a key is flushing its live handle. -/
theorem Closed.flushed {answer : Except Error Unit} (h : Closed key w answer w')
    (hlive : liveHandle? key w.registry = some handle) : Flushed handle w answer ⟨w.registry, w'.store⟩ := by
  cases h with
  | nothing unopened =>
    rw [unopened] at hlive
    cases hlive
  | closed handle' flushed r live flush handles generation ended =>
    obtain rfl : handle' = handle := Option.some.inj (live.symm.trans hlive)
    rw [← flush.registry]
    exact flush
  | failed handle' e w' live flush =>
    obtain rfl : handle' = handle := Option.some.inj (live.symm.trans hlive)
    rw [← flush.registry]
    exact flush

theorem Closed.eq_of_none {answer : Except Error Unit} (h : Closed key w answer w')
    (hlive : liveHandle? key w.registry = none) : answer = .ok () ∧ w' = w := by
  cases h with
  | nothing unopened => exact ⟨rfl, rfl⟩
  | closed handle flushed r live flush handles generation ended =>
    rw [hlive] at live
    cases live
  | failed handle e w' live flush =>
    rw [hlive] at live
    cases live

/-! ## Flushing all -/

/-- The handles that are flushed when all these are, one after the other, until a flush fails. -/
def flushedOf (w : SessionWorld) : List Nat → List Nat
  | [] => []
  | handle :: rest =>
    match (flushHandle handle).exec w with
    | (.ok (), w') => handle :: flushedOf w' rest
    | (.error _, _) => []

/-- **What flushing handles one after the other comes to**: those that are done are flushed, and the next
one fails, if there is one. -/
inductive FlushedEach : List Nat → SessionWorld → Except Error Unit → List Nat → SessionWorld → Prop
  | nil (w : SessionWorld) : FlushedEach [] w (.ok ()) [] w
  | next {handle : Nat} {rest done : List Nat} {w w' w'' : SessionWorld} {answer : Except Error Unit}
      (flush : Flushed handle w (.ok ()) w') (others : FlushedEach rest w' answer done w'') :
      FlushedEach (handle :: rest) w answer (handle :: done) w''
  | failed {handle : Nat} {rest : List Nat} {w w' : SessionWorld} {e : Error}
      (flush : Flushed handle w (.error e) w') : FlushedEach (handle :: rest) w (.error e) [] w'

theorem flushedEach_flushEach (hstore : w.store.IsSound) (handles : List Nat) :
    FlushedEach handles w ((flushEach handles).exec w).1 (flushedOf w handles)
      ((flushEach handles).exec w).2 := by
  induction handles generalizing w with
  | nil => exact .nil w
  | cons handle rest ih =>
    have hflush := flushed_flushHandle hstore handle
    rw [flushEach, Effect.exec_bind, flushedOf]
    rcases hexec : (flushHandle handle).exec w with ⟨e | ⟨⟩, w'⟩
    · rw [hexec] at hflush
      exact .failed hflush
    · rw [hexec] at hflush
      exact .next hflush (ih (hflush.sameBundles.later.isSound hstore))

namespace FlushedEach

variable {handles done : List Nat} {answer : Except Error Unit}

theorem registry (h : FlushedEach handles w answer done w') : w'.registry = w.registry := by
  induction h with
  | nil => rfl
  | next flush others ih => exact ih.trans flush.registry
  | failed flush => exact flush.registry

theorem sameBundles (h : FlushedEach handles w answer done w') : SameBundles w.store w'.store := by
  induction h with
  | nil => exact .refl _
  | next flush others ih => exact flush.sameBundles.trans ih
  | failed flush => exact flush.sameBundles

theorem ok (h : FlushedEach handles w answer done w') (hw : Consistent w.registry)
    (hstore : Reliable w.store) : answer = .ok () := by
  induction h with
  | nil => rfl
  | next flush others ih => exact ih (flush.registry ▸ hw) (hstore.later flush.sameBundles.later)
  | failed flush => exact flush.ok hw hstore

/-- If no flush fails, all are done. -/
theorem done_eq (h : FlushedEach handles w answer done w') (hok : answer = .ok ()) : done = handles := by
  induction h with
  | nil => rfl
  | next flush others ih => rw [ih hok]
  | failed flush => cases hok

end FlushedEach

theorem exec_flushAll (w : SessionWorld) : flushAll.exec w =
    (((flushEach (live w.registry)).exec w).1.map fun _ => (live w.registry).length,
      ((flushEach (live w.registry)).exec w).2) := by
  rw [flushAll, Effect.exec_bind_ok (Effect.exec_get w)]
  simp only [Effect.exec_bind, Effect.exec_pure]
  rcases (flushEach (live w.registry)).exec w with ⟨e | a, w'⟩ <;> rfl

/-! ## Calls -/

/-- A call of a holder, or the end of a registry. -/
inductive Call where
  | openKey (key : String)
  | setContents (handle : Nat) (data : Bytes)
  | append (handle : Nat) (data : Bytes)
  | flush (handle : Nat)
  | close (handle : Nat)
  | closeKey (key : String)
  | flushAll
  | restart

/-- The handle belongs to this registry and to no earlier one. -/
def isCurrent (r : SessionRegistry) (handle : Nat) : Bool :=
  (handle? r handle).any (·.generation = r.generation)

/-- A registry over a store, and the handles that are held: they were given out by this registry, and
their keys have not been closed since. -/
structure Usage extends SessionWorld where
  held : List Nat

namespace Usage

/-- Nothing has been opened yet. -/
def unused (store : ObjectStore) : Usage := ⟨⟨{}, store⟩, []⟩

/-- The handles that are held once the closing of a key has answered. -/
def heldAfter (u : Usage) (key : String) (answer : Except Error Unit) : List Nat :=
  if answer.isOk then u.held.filter (keyOf u.registry · ≠ key) else u.held

/-- What a call leaves. -/
def after (u : Usage) : Call → Usage
  | .openKey key =>
    let (answer, w) := (openKey key).exec u.toSessionWorld
    ⟨w, answer.toOption.toList ++ u.held⟩
  | .setContents handle data => ⟨⟨Session.setContents handle data u.registry, u.store⟩, u.held⟩
  | .append handle data => ⟨⟨Session.append handle data u.registry, u.store⟩, u.held⟩
  | .flush handle => ⟨((flushHandle handle).exec u.toSessionWorld).2, u.held⟩
  | .close handle =>
    let (answer, w) := (closeHandle handle).exec u.toSessionWorld
    ⟨w, if isCurrent u.registry handle then u.heldAfter (keyOf u.registry handle) answer else u.held⟩
  | .closeKey key =>
    let (answer, w) := (Session.closeKey key).exec u.toSessionWorld
    ⟨w, u.heldAfter key answer⟩
  | .flushAll => ⟨(Session.flushAll.exec u.toSessionWorld).2, u.held⟩
  | .restart => ⟨⟨Session.restart u.registry, u.store⟩, []⟩

/-- What calls leave of a store on which nothing has been opened yet. -/
def ofCalls (start : ObjectStore) (calls : List Call) : Usage := calls.foldl after (unused start)

theorem ofCalls_concat (start : ObjectStore) (calls : List Call) (c : Call) :
    ofCalls start (calls ++ [c]) = (ofCalls start calls).after c := by
  rw [ofCalls, List.foldl_append]
  rfl

end Usage

/-- A handle closes through its key, unless its registry is gone. -/
theorem exec_closeHandle (handle : Nat) (w : SessionWorld) : (closeHandle handle).exec w =
    if isCurrent w.registry handle then (closeKey (keyOf w.registry handle)).exec w
    else (flushHandle handle).exec w := by
  rw [closeHandle, Effect.exec_bind_ok (Effect.exec_get w), isCurrent, keyOf]
  cases hx : handle? w.registry handle with
  | none =>
    rw [flushHandle, Effect.exec_bind_ok (Effect.exec_get w), hx]
    simp [hx]
  | some x =>
    simp only [hx, Option.any_some, decide_eq_true_eq]
    split <;> rfl

/-! ## Runs -/

theorem consistent_restart (hr : Consistent r) : Consistent (restart r) where
  nodup := List.nodup_nil
  slots := fun _ he => absurd he List.not_mem_nil
  accepted := hr.accepted

/-- **What a run keeps**: the registry is in order, the handles that are held are the live ones, and bundles
are as they were. -/
structure Inv (start : ObjectStore) (u : Usage) : Prop where
  consistent : Consistent u.registry
  held : ∀ handle, handle ∈ u.held ↔ liveHandle? (keyOf u.registry handle) u.registry = some handle
  bundles : SameBundles start u.store

namespace Inv

variable {u : Usage}

/-- A live handle is held. -/
theorem held_of_live (hu : Inv start u) (h : liveHandle? key u.registry = some handle) :
    handle ∈ u.held := by
  rw [hu.held, hu.consistent.keyOf_of_live h]
  exact h

/-- Nothing of the registry changes but buffers. -/
theorem of_sameLive (hu : Inv start u) (hw : Consistent w.registry)
    (hkey : ∀ handle, keyOf w.registry handle = keyOf u.registry handle)
    (hlive : ∀ key, liveHandle? key w.registry = liveHandle? key u.registry)
    (hstore : SameBundles u.store w.store) : Inv start ⟨w, u.held⟩ where
  consistent := hw
  held := fun handle => by rw [hu.held, hkey, hlive]
  bundles := hu.bundles.trans hstore

theorem opened (hu : Inv start u) {answer : Except Error Nat} (h : Opened key u.toSessionWorld answer w)
    (hw : Consistent w.registry) : Inv start ⟨w, answer.toOption.toList ++ u.held⟩ := by
  cases h with
  | shared handle live =>
    refine ⟨hw, fun h => ?_, hu.bundles⟩
    have hheld := hu.held_of_live live
    show h ∈ handle :: u.held ↔ _
    rw [List.mem_cons, hu.held]
    exact ⟨fun hor => hor.elim (fun heq => heq ▸ (hu.held handle).mp hheld) id, .inr⟩
  | loaded r data unopened read handles generation live =>
    refine ⟨hw, fun h => ?_, hu.bundles⟩
    show h ∈ u.registry.handles.length :: u.held ↔ liveHandle? (keyOf r h) r = some h
    rw [List.mem_cons, hu.held, live, keyOf_added handles]
    -- the new handle is live; of the old ones only one of this key could have ended, and there was none
    by_cases hnew : h = u.registry.handles.length
    · rw [if_pos hnew, if_pos rfl, hnew]
      simp
    · rw [if_neg hnew]
      split
      · rename_i hkey
        rw [hkey, unopened]
        simp [hnew, eq_comm]
      · simp [hnew]
  | failed e r handles generation live cause =>
    exact hu.of_sameLive hw (keyOf_congr handles) live (.refl _)

theorem modified (hu : Inv start u) (handle : Nat) (change : Bytes → Bytes) :
    Inv start ⟨⟨modify handle change u.registry, u.store⟩, u.held⟩ :=
  hu.of_sameLive (consistent_modify hu.consistent change) (keyOf_modify change)
    (fun _ => liveHandle?_modify change) (.refl _)

theorem sameRegistry (hu : Inv start u) (hregistry : w.registry = u.registry)
    (hstore : SameBundles u.store w.store) : Inv start ⟨w, u.held⟩ :=
  hu.of_sameLive (hregistry ▸ hu.consistent) (fun _ => by rw [hregistry])
    (fun _ => by rw [hregistry]) hstore

theorem closed (hu : Inv start u) {answer : Except Error Unit} (h : Closed key u.toSessionWorld answer w)
    (hw : Consistent w.registry) : Inv start ⟨w, u.heldAfter key answer⟩ := by
  cases h with
  | nothing unopened =>
    refine ⟨hu.consistent, fun h => ?_, hu.bundles⟩
    show h ∈ u.held.filter _ ↔ liveHandle? (keyOf u.registry h) u.registry = some h
    rw [List.mem_filter, hu.held, decide_eq_true_eq, and_iff_left_iff_imp]
    intro hlive hkey
    rw [hkey, unopened] at hlive
    cases hlive
  | closed handle flushed r live flush handles generation ended =>
    refine ⟨hw, fun h => ?_, hu.bundles.trans flush.sameBundles⟩
    show h ∈ u.held.filter _ ↔ liveHandle? (keyOf r h) r = some h
    rw [List.mem_filter, hu.held, decide_eq_true_eq, keyOf_congr handles, ended]
    split <;> simp_all
  | failed handle e w' live flush =>
    exact hu.sameRegistry flush.registry flush.sameBundles

end Inv

namespace Usage

variable {u : Usage}

theorem inv_unused (start : ObjectStore) : Inv start (unused start) where
  consistent := ⟨List.nodup_nil, fun _ he => absurd he List.not_mem_nil,
    fun _ hx => absurd hx List.not_mem_nil⟩
  held := fun _ => ⟨fun h => absurd h List.not_mem_nil, fun h => by cases h⟩
  bundles := .refl start

/-- **Every call keeps what runs keep.** -/
theorem inv_after (hstart : start.IsSound) (hu : Inv start u) (c : Call) : Inv start (u.after c) := by
  have hstore : u.store.IsSound := hu.bundles.later.isSound hstart
  cases c with
  | openKey key =>
    obtain ⟨hopened, hconsistent⟩ := opened_openKey hu.consistent key
    exact hu.opened hopened hconsistent
  | setContents handle data => exact hu.modified handle _
  | append handle data => exact hu.modified handle _
  | flush handle =>
    have hflush := flushed_flushHandle hstore handle
    exact hu.sameRegistry hflush.registry hflush.sameBundles
  | close handle =>
    simp only [after, exec_closeHandle]
    split
    · obtain ⟨hclosed, hconsistent⟩ := closed_closeKey hu.consistent hstore (keyOf u.registry handle)
      exact hu.closed hclosed hconsistent
    · have hflush := flushed_flushHandle hstore handle
      exact hu.sameRegistry hflush.registry hflush.sameBundles
  | closeKey key =>
    obtain ⟨hclosed, hconsistent⟩ := closed_closeKey hu.consistent hstore key
    exact hu.closed hclosed hconsistent
  | flushAll =>
    have hflush := flushedEach_flushEach hstore (live u.registry)
    simp only [after, exec_flushAll]
    exact hu.sameRegistry hflush.registry hflush.sameBundles
  | restart =>
    refine ⟨consistent_restart hu.consistent, fun handle => ?_, hu.bundles⟩
    exact ⟨fun h => absurd h List.not_mem_nil, fun h => by cases h⟩

/-- **What every run keeps.** -/
theorem inv_ofCalls (hstart : start.IsSound) (calls : List Call) : Inv start (ofCalls start calls) := by
  induction calls using List.reverseRecOn with
  | nil => exact inv_unused start
  | append_singleton calls c ih =>
    rw [ofCalls_concat]
    exact inv_after hstart ih c

/-! ## Closing a handle -/

/-- **What closing a handle comes to**, after calls on the store `start`. -/
structure Closing (start : ObjectStore) (u : Usage) (handle : Nat) : Prop where
  /-- If the handle is held or its registry is gone, what it holds is in the store. -/
  kept : handle ∈ u.held ∨ isCurrent u.registry handle = false →
    ((closeHandle handle).exec u.toSessionWorld).1 = .ok () → contents u.registry handle ≠ [] →
      ((closeHandle handle).exec u.toSessionWorld).2.store.find? (storageKey (keyOf u.registry handle)) =
        some (contents u.registry handle)
  /-- If not, its key was closed before: nothing is written but what another handle of the key holds. -/
  passedOver : handle ∉ u.held → isCurrent u.registry handle = true →
    ∀ k, ((closeHandle handle).exec u.toSessionWorld).2.store.find? k = u.store.find? k ∨
      k = storageKey (keyOf u.registry handle) ∧ ∃ other ∈ u.held,
        keyOf u.registry other = keyOf u.registry handle ∧
        ((closeHandle handle).exec u.toSessionWorld).2.store.find? k = some (contents u.registry other)
  /-- It fails only if the store does. -/
  answers : Reliable start → ((closeHandle handle).exec u.toSessionWorld).1 = .ok ()

theorem Closing.of_inv (hstart : start.IsSound) (hu : Inv start u) (handle : Nat) :
    Closing start u handle := by
  have hstore : u.store.IsSound := hu.bundles.later.isSound hstart
  have hflush := flushed_flushHandle (w := u.toSessionWorld) hstore handle
  have hclosed := (closed_closeKey hu.consistent hstore (keyOf u.registry handle)).1
  refine ⟨?_, ?_, ?_⟩
  · rw [exec_closeHandle, hu.held]
    split
    · -- the registry is asked by key, and the key leads back to this handle because it is held
      rename_i hcurrent
      intro hhandle hok hfilled
      have hlive := hhandle.resolve_right (by simp [hcurrent])
      rw [hok] at hclosed
      exact ((hclosed.flushed hlive).find?_ok _).trans (if_pos ⟨hfilled, rfl⟩)
    · intro _ hok hfilled
      rw [hok] at hflush
      rw [hflush.find?_ok, if_pos ⟨hfilled, rfl⟩]
  · intro hheld hcurrent k
    rw [exec_closeHandle, if_pos hcurrent]
    cases hlive : liveHandle? (keyOf u.registry handle) u.registry with
    | none => exact .inl (by rw [(hclosed.eq_of_none hlive).2])
    | some other =>
      have hflush := hclosed.flushed hlive
      have hkey := hu.consistent.keyOf_of_live hlive
      cases hok : ((closeKey (keyOf u.registry handle)).exec u.toSessionWorld).1 with
      | error e =>
        rw [hok] at hflush
        exact .inl (hflush.find?_error k)
      | ok _ =>
        rw [hok] at hflush
        have hfind := hflush.find?_ok k
        rw [hkey] at hfind
        split at hfind
        · rename_i hwritten
          exact .inr ⟨hwritten.2, other, hu.held_of_live hlive, hkey, hfind⟩
        · exact .inl hfind
  · intro hreliable
    rw [exec_closeHandle]
    split
    · exact hclosed.ok hu.consistent (hreliable.later hu.bundles.later)
    · exact hflush.ok hu.consistent (hreliable.later hu.bundles.later)

/-- **Closing a session.** Any number of holders open keys, change buffers, flush and close, in any order:
when a handle that is held, or whose registry is gone, is closed, its buffer is in the store if it holds
anything. A handle whose key was closed before is passed over. -/
theorem ofCalls_closing (calls : List Call) (handle : Nat) (hstart : start.IsSound) :
    Closing start (ofCalls start calls) handle :=
  .of_inv hstart (inv_ofCalls hstart calls) handle

theorem ofCalls_closing_login :
    let u := ofCalls .inMemory [.openKey "k", .append 0 [108], .flush 0, .append 0 [111]]
    ((closeHandle 0).exec u.toSessionWorld).1 = .ok () ∧
      ((closeHandle 0).exec u.toSessionWorld).2.store.find? "session/k" = some [108, 111] := by
  intro u
  have hclosing : Closing .inMemory u 0 := ofCalls_closing _ 0 inMemory_isSound
  have hok := hclosing.answers reliable_inMemory
  exact ⟨hok, hclosing.kept (.inl (by decide +kernel)) hok (by decide +kernel)⟩

/-- Two holders share a handle and both close it; what is put into its buffer in between is lost. -/
theorem ofCalls_closedTwice :
    let u := ofCalls .inMemory [.openKey "k", .openKey "k", .close 0, .setContents 0 [108]]
    ((closeHandle 0).exec u.toSessionWorld).1 = .ok () ∧ contents u.registry 0 = [108] ∧
      ((closeHandle 0).exec u.toSessionWorld).2.store.find? "session/k" = none := by
  refine ⟨by rfl, by rfl, by rfl⟩

end Usage
end Syndication.Session
