import Syndication.Platform.Registry
import Syndication.Proofs.Staging.Keys
import Syndication.Proofs.Store.Objects

/-!
# Proofs.Platform.Delivery — a delivery does not touch bundles

A platform may keep a session, and a session is written to the object store that bundles stand in.
Its key lies in a space of its own, so whatever a platform does with the sessions, bundles and locks
stay as they are.

## Contents
* `KeepsBundles`                  — steps on sessions that leave bundles alone
* `keepsBundles_openKey`, `keepsBundles_flushHandle`, `keepsBundles_note`
* `Platform.deliver_keepsBundles`
-/

namespace Syndication

open ObjectStore

/-- A later state of a store in which bundles are as they were. -/
structure SameBundles (s s' : ObjectStore) : Prop where
  later : Later s s'
  find : ∀ k, Text.startsWith k Staging.bundleStart = true → s'.find? k = s.find? k

namespace SameBundles

theorem refl (s : ObjectStore) : SameBundles s s := ⟨.refl s, fun _ _ => rfl⟩

theorem trans {s t u : ObjectStore} (h : SameBundles s t) (h' : SameBundles t u) :
    SameBundles s u :=
  ⟨h.later.trans h'.later, fun k hk => (h'.find k hk).trans (h.find k hk)⟩

end SameBundles

/-- A step on sessions that leaves bundles as they are. -/
def KeepsBundles {α : Type} (m : Effect SessionWorld α) : Prop :=
  ∀ w, w.store.IsSound → SameBundles w.store (m.exec w).2.store

namespace KeepsBundles

variable {α β : Type}

theorem pure (a : α) : KeepsBundles (Pure.pure a : Effect SessionWorld α) := fun w _ => .refl w.store

theorem throw (e : Error) : KeepsBundles (MonadExcept.throw e : Effect SessionWorld α) :=
  fun w _ => .refl w.store

theorem get : KeepsBundles (MonadState.get : Effect SessionWorld SessionWorld) :=
  fun w _ => .refl w.store

theorem bind {m : Effect SessionWorld α} {f : α → Effect SessionWorld β} (hm : KeepsBundles m)
    (hf : ∀ a, KeepsBundles (f a)) : KeepsBundles (m >>= f) := by
  intro w hw
  have hfirst := hm w hw
  rw [Effect.exec_bind]
  rcases h : m.exec w with ⟨e | a, w'⟩
  · rwa [h] at hfirst
  · rw [h] at hfirst
    exact hfirst.trans (hf a w' (hfirst.later.isSound hw))

/-- What happens in the registry is not felt in the store. -/
theorem onRegistry (f : SessionRegistry → α × SessionRegistry) : KeepsBundles (Session.onRegistry f) :=
  fun w _ => .refl w.store

/-- Reading the store leaves it as it is. -/
theorem onStore_get (key : String) : KeepsBundles (Session.onStore (ObjectStore.get key)) := by
  intro w _
  simp only [Session.onStore, Effect.exec_on, get_snd]
  exact .refl w.store

/-- A key of a session is no key of a bundle. -/
theorem storageKey_ne {k : String} (hk : Text.startsWith k Staging.bundleStart = true) (key : String) :
    k ≠ Session.storageKey key := by
  obtain ⟨rest, rfl⟩ := Text.startsWith_iff.mp hk
  intro heq
  have hhead := congrArg (fun s => s.toList.head?) heq
  simp [Staging.bundleStart, Session.storageKey] at hhead

theorem onStore_put (key : String) (data : Bytes) :
    KeepsBundles (Session.onStore (ObjectStore.put (Session.storageKey key) data)) := by
  intro w hw
  rcases h : (ObjectStore.put (Session.storageKey key) data).exec w.store with ⟨r, s'⟩
  obtain ⟨hlater, hput⟩ := put_spec hw h
  simp only [Session.onStore, Effect.exec_on, h]
  refine ⟨hlater, ?_⟩
  intro k hk
  rcases hput with ⟨-, hfind⟩ | ⟨-, hfind⟩
  · rw [hfind, if_neg (storageKey_ne hk key)]
  · exact hfind k

end KeepsBundles

/-! ## Sessions -/

theorem keepsBundles_load (slot : Nat) (key : String) : KeepsBundles (Session.load slot key) := by
  apply KeepsBundles.get.bind
  intro w
  split
  · exact .pure _
  · exact (KeepsBundles.onStore_get _).bind fun data => .onRegistry _

theorem keepsBundles_openKey (key : String) : KeepsBundles (Session.openKey key) := by
  unfold Session.openKey
  split
  · exact .throw _
  · exact (KeepsBundles.onRegistry _).bind fun slot => keepsBundles_load slot key

theorem keepsBundles_flushHandle (handle : Nat) : KeepsBundles (Session.flushHandle handle) := by
  apply KeepsBundles.get.bind
  intro w
  split
  · exact .pure _
  · split
    · exact .pure _
    · exact .onStore_put _ _

theorem keepsBundles_note (m : Mock) (jobId : String) : KeepsBundles (m.note jobId) := by
  unfold Mock.note
  split
  · exact (keepsBundles_openKey _).bind fun handle =>
      (KeepsBundles.onRegistry _).bind fun _ => keepsBundles_flushHandle handle
  · exact .pure _

/-! ## Deliveries -/

theorem Mock.deliver_sameBundles (m : Mock) (d : Delivery) (limit : Span) {w : SessionWorld}
    (hw : w.store.IsSound) : SameBundles w.store (m.deliver d limit w).2.2.store := by
  have hnote := keepsBundles_note m d.job.jobId w hw
  simp only [Mock.deliver]
  split
  · exact .refl w.store
  split
  · exact .refl w.store
  split
  · rename_i hexec
    rwa [hexec] at hnote
  · rename_i hexec
    rwa [hexec] at hnote

/-- **A delivery leaves bundles as they are**, and their locks. -/
theorem Platform.deliver_sameBundles (p : Platform) (d : Delivery) (limit : Span) {w : SessionWorld}
    (hw : w.store.IsSound) : SameBundles w.store (p.deliver d limit w).2.2.store := by
  cases p with
  | mock m => exact m.deliver_sameBundles d limit hw
  | hook h => exact .refl w.store

end Syndication
