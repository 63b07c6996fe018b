import Syndication.Proofs.Staging.Bundle

/-!
# Proofs.Staging.Collect — what a sweep removes

A sweep removes the objects of bundles that no target has locked, and nothing else. This holds for
every store, also when calls fail on the way: a listing that was not answered stops the collection,
and one that was answered names every lock. In memory, where calls do not fail, a sweep removes all
there is of such a bundle, and its report counts the bundles.

## Contents
* `Unlocked`                             — no target holds a lock of the bundle
* `deleteAll_frame`, `collect_frame`, `sweep_frame`
* `bundles_inMemory`, `collect_inMemory`, `sweep_inMemory`
-/

namespace Syndication.Staging

open ObjectStore

variable {s s' : ObjectStore} {root : String}

/-- No target holds a lock of the bundle. -/
def Unlocked (s : ObjectStore) (root : String) : Prop :=
  ∀ target, isPathSafe target = true → s.find? (lockKey root target) = none

/-! ## Nothing but what is done -/

/-- Deletions remove at most what they are asked to. -/
theorem deleteAll_frame {keys : List String} (hs : s.IsSound) {r : Except Error Nat}
    (h : (deleteAll keys).exec s = (r, s')) :
    Later s s' ∧ ∀ k, s'.find? k = s.find? k ∨ (k ∈ keys ∧ s'.find? k = none) := by
  induction keys generalizing s r with
  | nil =>
    obtain ⟨rfl, rfl⟩ := Prod.mk.inj h
    exact ⟨.refl _, fun _ => .inl rfl⟩
  | cons key keys ih =>
    rw [deleteAll, Effect.exec_bind] at h
    rcases hdel : (ObjectStore.delete key).exec s with ⟨e | found, t⟩
    · rw [hdel] at h
      obtain ⟨rfl, rfl⟩ := Prod.mk.inj h
      obtain ⟨hlater, hfind⟩ := delete_frame hs hdel
      refine ⟨hlater, fun k => (hfind k).imp_right ?_⟩
      rintro ⟨rfl, hk⟩
      exact ⟨List.mem_cons_self, hk⟩
    · rw [hdel] at h
      obtain ⟨hlater, hfind⟩ := delete_frame hs hdel
      simp only [bind_pure_comp, Effect.exec_map_eq] at h
      obtain ⟨hlater', hfind'⟩ := ih (hlater.isSound hs) (Prod.ext rfl (Prod.mk.inj h).2)
      refine ⟨hlater.trans hlater', ?_⟩
      intro k
      rcases hfind' k with hk | ⟨hmem, hk⟩
      · rcases hfind k with hk' | ⟨rfl, hk'⟩
        · exact .inl (hk.trans hk')
        · exact .inr ⟨List.mem_cons_self, hk.trans hk'⟩
      · exact .inr ⟨List.mem_cons_of_mem _ hmem, hk⟩

/-- How a collection goes that was not stopped at once: the listing was answered. -/
theorem collect_eq (hroot : isPathSafe root = true) {keys : List String}
    (hlist : (ObjectStore.list (rootStart root)).exec s = (.ok keys, s)) :
    (collect root).exec s =
      if keys.isEmpty then (.ok .missing, s)
      else if 0 < keys.countP (Text.startsWith · (rootStart root ++ lockStart)) then
        (.ok (.locked (keys.countP (Text.startsWith · (rootStart root ++ lockStart)))), s)
      else (((deleteAll keys).exec s).1.map .collected, ((deleteAll keys).exec s).2) := by
  rw [rootStart] at hlist ⊢
  simp only [collect, checkRoot_eq hroot, Effect.exec_bind, Effect.exec_liftM, hlist]
  split
  · rfl
  · split
    · rfl
    · rw [bind_pure_comp, Effect.exec_map_eq]

/-- A listing of a bundle that names no lock has missed none. -/
theorem unlocked_of_list (hs : s.IsSound) {keys : List String}
    (hlist : (ObjectStore.list (rootStart root)).exec s = (.ok keys, s))
    (hnone : ¬ 0 < keys.countP (Text.startsWith · (rootStart root ++ lockStart))) : Unlocked s root := by
  obtain ⟨-, hcomplete⟩ := list_spec hs (congrArg Prod.fst hlist)
  intro target htarget
  rw [← Option.not_isSome_iff_eq_none]
  intro hfind
  have hname := isName_lock htarget
  have hmem : rootStart root ++ (lockStart ++ target) ∈ keys := by
    refine hcomplete (bundleStart ++ root) _ ?_ rfl ?_ hfind
    · intro hempty
      have := congrArg String.toList hempty
      simp [bundleStart] at this
    · rw [Store.segments, Text.split_eq_singleton hname.slash]
      intro name hmem
      obtain rfl := List.mem_singleton.mp hmem
      exact hname.isFinished
  refine hnone (List.countP_pos_iff.mpr ⟨_, hmem, ?_⟩)
  rw [← String.append_assoc]
  exact Text.startsWith_append _ _

/-- **A collection** removes objects of the one bundle, and only if no target has locked it. -/
theorem collect_frame (hs : s.IsSound) {r : Except Error CollectOutcome}
    (h : (collect root).exec s = (r, s')) :
    Later s s' ∧ ∀ k, s'.find? k = s.find? k ∨
      (s'.find? k = none ∧ Text.startsWith k (rootStart root) = true ∧ Unlocked s root) := by
  have hsame : s' = s → Later s s' ∧ ∀ k, s'.find? k = s.find? k ∨
      (s'.find? k = none ∧ Text.startsWith k (rootStart root) = true ∧ Unlocked s root) := by
    rintro rfl
    exact ⟨.refl _, fun _ => .inl rfl⟩
  by_cases hroot : isPathSafe root = true
  case neg =>
    apply hsame
    simp [collect, checkRoot, hroot] at h
    exact h.2.symm
  -- without an answer nothing is removed, since a lock might have been missed
  rcases hlist : (ObjectStore.list (rootStart root)).exec s with ⟨e | keys, t⟩
  · apply hsame
    have ht : t = s := (congrArg Prod.snd hlist).symm.trans list_snd
    rw [rootStart] at hlist
    simp [collect, checkRoot_eq hroot, hlist, ht] at h
    exact h.2.symm
  have ht : t = s := (congrArg Prod.snd hlist).symm.trans list_snd
  rw [ht] at hlist
  rw [collect_eq hroot hlist] at h
  split at h
  · exact hsame (Prod.mk.inj h).2.symm
  split at h
  · exact hsame (Prod.mk.inj h).2.symm
  rename_i hunlocked
  obtain ⟨hnamed, -⟩ := list_spec hs (congrArg Prod.fst hlist)
  have hdel : (deleteAll keys).exec s = (((deleteAll keys).exec s).1, s') :=
    Prod.ext rfl (Prod.mk.inj h).2
  obtain ⟨hlater, hfind⟩ := deleteAll_frame hs hdel
  refine ⟨hlater, fun k => (hfind k).imp_right fun hk => ⟨hk.2, (hnamed k hk.1).1, ?_⟩⟩
  exact unlocked_of_list hs hlist hunlocked

theorem sweepRoots_cons (r : SweepReport) (root : String) (roots : List String) (s : ObjectStore) :
    (sweepRoots r (root :: roots)).exec s =
      (sweepRoots (r.add ((collect root).exec s).1) roots).exec ((collect root).exec s).2 := by
  rw [sweepRoots, Effect.exec_settle_bind]

/-- Collections one after the other remove objects of bundles that no target has locked. -/
theorem sweepRoots_frame {roots : List String} (hroots : ∀ root ∈ roots, '/' ∉ root.toList)
    (hs : s.IsSound) (report : SweepReport) {r : Except Error SweepReport}
    (h : (sweepRoots report roots).exec s = (r, s')) :
    Later s s' ∧ ∀ k, s'.find? k = s.find? k ∨ (s'.find? k = none ∧ ∃ root, '/' ∉ root.toList ∧
      Text.startsWith k (rootStart root) = true ∧ Unlocked s root) := by
  induction roots generalizing s report with
  | nil =>
    obtain ⟨-, rfl⟩ := Prod.mk.inj h
    exact ⟨.refl _, fun _ => .inl rfl⟩
  | cons root roots ih =>
    rw [sweepRoots_cons] at h
    have hslash := hroots root List.mem_cons_self
    obtain ⟨hlater, hfind⟩ := collect_frame (r := ((collect root).exec s).1) hs rfl
    obtain ⟨hlater', hfind'⟩ :=
      ih (fun root hmem => hroots root (List.mem_cons_of_mem _ hmem)) (hlater.isSound hs) _ h
    refine ⟨hlater.trans hlater', ?_⟩
    intro k
    rcases hfind' k with hk | ⟨hk, other, hother, hstart, hunlocked⟩
    · rcases hfind k with hk' | ⟨hk', hstart, hunlocked⟩
      · exact .inl (hk.trans hk')
      · exact .inr ⟨hk.trans hk', root, hslash, hstart, hunlocked⟩
    · refine .inr ⟨hk, other, hother, hstart, fun target htarget => ?_⟩
      -- the first collection removes a lock only where there is none
      rcases hfind (lockKey other target) with hlock | ⟨-, hstart', hunlocked'⟩
      · rw [← hlock]
        exact hunlocked target htarget
      · obtain rfl := (startsWith_contentKey_iff hother hslash).mp hstart'
        exact hunlocked' target htarget

theorem bundles_snd : ((bundles).exec s).2 = s := by
  rw [bundles, bind_pure_comp, Effect.exec_map_eq]
  exact list_snd

theorem slash_of_rootOf? {k root : String} (h : rootOf? k = some root) : '/' ∉ root.toList := by
  obtain ⟨rest, -, hhead⟩ := Option.bind_eq_some_iff.mp h
  exact Text.not_mem_of_mem_split (List.mem_of_mem_head? hhead)

theorem startsWith_of_rootOf? {k root : String} (h : rootOf? k = some root) :
    Text.startsWith k bundleStart = true := by
  obtain ⟨rest, hdrop, -⟩ := Option.bind_eq_some_iff.mp h
  rw [Text.startsWith, hdrop]
  rfl

theorem nodup_eraseDups (l : List String) : l.eraseDups.Nodup := by
  induction hn : l.length using Nat.strongRecOn generalizing l with
  | ind n ih =>
    cases l with
    | nil => exact List.nodup_nil
    | cons a l =>
      rw [List.eraseDups_cons, List.nodup_cons, List.mem_eraseDups]
      refine ⟨by simp, ih _ ?_ _ rfl⟩
      have hlen := List.length_filter_le (fun b => !b == a) l
      rw [List.length_cons] at hn
      omega

/-- The bundles that are found are the ones that some listed key belongs to, each of them once. -/
theorem mem_bundles {roots keys : List String} {t u : ObjectStore}
    (hlist : (ObjectStore.list bundleStart).exec s = (.ok keys, u))
    (h : (bundles).exec s = (.ok roots, t)) :
    roots.Nodup ∧ ∀ root, root ∈ roots ↔ ∃ k ∈ keys, rootOf? k = some root := by
  simp only [bundles, bind_pure_comp, Effect.exec_map_eq, hlist] at h
  rw [← Except.ok.inj (Prod.mk.inj h).1]
  refine ⟨(List.mergeSort_perm _ _).nodup_iff.mpr (nodup_eraseDups _), ?_⟩
  intro root
  rw [List.mem_mergeSort, List.mem_eraseDups, List.mem_filterMap]

/-- **A sweep** removes objects of bundles that no target has locked, and nothing else. -/
theorem sweep_frame (hs : s.IsSound) {r : Except Error SweepReport} (h : (sweep).exec s = (r, s')) :
    Later s s' ∧ ∀ k, s'.find? k = s.find? k ∨ (s'.find? k = none ∧ ∃ root, '/' ∉ root.toList ∧
      Text.startsWith k (rootStart root) = true ∧ Unlocked s root) := by
  rw [sweep, Effect.exec_bind] at h
  have hsnd := bundles_snd (s := s)
  rcases hbundles : (bundles).exec s with ⟨e | roots, t⟩
  · rw [hbundles] at h hsnd
    obtain ⟨-, rfl⟩ := Prod.mk.inj h
    obtain rfl : t = s := hsnd
    exact ⟨.refl _, fun _ => .inl rfl⟩
  · rw [hbundles] at hsnd
    obtain rfl : t = s := hsnd
    simp only [hbundles] at h
    refine sweepRoots_frame (fun root hroot => ?_) hs {} h
    rcases hlist : (ObjectStore.list bundleStart).exec t with ⟨e | keys, u⟩
    · simp [bundles, hlist] at hbundles
    · obtain ⟨k, -, hk⟩ := ((mem_bundles hlist hbundles).2 root).mp hroot
      exact slash_of_rootOf? hk

/-! ## All that is done, in memory -/

/-- A lock of the bundle is there. -/
def Locked (s : ObjectStore) (root : String) : Prop :=
  ∃ k, (s.find? k).isSome = true ∧ Text.startsWith k (rootStart root ++ lockStart) = true

/-- Calls are answered: the objects are in memory, and the store is out of order for no listing and
no deletion. -/
structure Answers (s : ObjectStore) : Prop where
  inMemory : s.InMemory
  list : ∀ start, s.outage.list start = false
  delete : ∀ key, s.outage.delete key = false

theorem Answers.later (h : Answers s) (hlater : Later s s') : Answers s' where
  inMemory := hlater.inMemory h.inMemory
  list := hlater.outage ▸ h.list
  delete := hlater.outage ▸ h.delete

/-- Deletions of all that is named. -/
theorem deleteAll_inMemory {keys : List String} (hs : Answers s)
    (hkeys : ∀ k ∈ keys, Store.isValidKey k = true) :
    ∃ n s', (deleteAll keys).exec s = (.ok n, s') ∧ Later s s' ∧
      ∀ k, s'.find? k = if k ∈ keys then none else s.find? k := by
  induction keys generalizing s with
  | nil => exact ⟨0, s, rfl, .refl s, fun k => by simp⟩
  | cons key keys ih =>
    have hvalid := hkeys key List.mem_cons_self
    have hanswer := delete_inMemory hs.inMemory (hs.delete key) hvalid
    obtain ⟨hlater, hfind, -⟩ :=
      delete_spec hs.inMemory.isSound (hs.delete key) hvalid (Prod.ext hanswer rfl)
    obtain ⟨n, s', hrest, hlater', hfind'⟩ :=
      ih (hs.later hlater) fun k hk => hkeys k (List.mem_cons_of_mem _ hk)
    refine ⟨(if (s.find? key).isSome then 1 else 0) + n, s', ?_, hlater.trans hlater', ?_⟩
    · rw [deleteAll, Effect.exec_bind_ok (Prod.ext hanswer rfl), Effect.exec_bind_ok hrest]
      rfl
    · intro k
      rw [hfind', hfind]
      by_cases hk : k = key
      · simp [hk]
      · simp [hk]

/-- **A collection in memory** tells a bundle of which nothing is left, one that is locked, and one
that is done; of the last it leaves nothing. -/
theorem collect_inMemory (hs : Answers s) (hroot : isPathSafe root = true)
    (hkeys : ∀ k, (s.find? k).isSome = true → Text.startsWith k (rootStart root) = true →
      Store.isValidKey k = true)
    (hsome : ∃ k, (s.find? k).isSome = true ∧ Text.startsWith k (rootStart root) = true) :
    (Locked s root ∧ ∃ n, (collect root).exec s = (.ok (.locked n), s)) ∨
      (¬ Locked s root ∧ ∃ n s', (collect root).exec s = (.ok (.collected n), s') ∧ Later s s' ∧
        ∀ k, s'.find? k = if Text.startsWith k (rootStart root) then none else s.find? k) := by
  obtain ⟨keys, hlist, hmem⟩ := list_inMemory hs.inMemory (hs.list (rootStart root))
  have hne : keys.isEmpty = false := by
    obtain ⟨k, hk⟩ := hsome
    rw [List.isEmpty_eq_false_iff_exists_mem]
    exact ⟨k, (hmem k).mpr hk⟩
  have hlocked : 0 < keys.countP (Text.startsWith · (rootStart root ++ lockStart)) ↔
      Locked s root := by
    rw [List.countP_pos_iff]
    constructor
    · rintro ⟨k, hk, hstart⟩
      exact ⟨k, ((hmem k).mp hk).1, hstart⟩
    · rintro ⟨k, hk, hstart⟩
      refine ⟨k, (hmem k).mpr ⟨hk, ?_⟩, hstart⟩
      obtain ⟨rest, rfl⟩ := Text.startsWith_iff.mp hstart
      rw [String.append_assoc]
      exact Text.startsWith_append _ _
  rw [collect_eq hroot hlist, hne, if_neg Bool.false_ne_true]
  by_cases h : Locked s root
  · rw [if_pos (hlocked.mpr h)]
    exact .inl ⟨h, _, rfl⟩
  · rw [if_neg (mt hlocked.mp h)]
    obtain ⟨n, s', hdel, hlater, hfind⟩ := deleteAll_inMemory hs fun k hk =>
      hkeys k ((hmem k).mp hk).1 ((hmem k).mp hk).2
    refine .inr ⟨h, n, s', by rw [hdel]; rfl, hlater, fun k => ?_⟩
    rw [hfind]
    by_cases hstart : Text.startsWith k (rootStart root) = true
    · rw [if_pos hstart]
      split
      · rfl
      · rename_i hk
        rw [hmem, not_and] at hk
        exact Option.not_isSome_iff_eq_none.mp fun hfound => hk hfound hstart
    · rw [if_neg hstart, if_neg fun hk => hstart ((hmem k).mp hk).2]

/-- A key belongs to one bundle. -/
theorem rootStart_unique {k root root' : String} (hroot : '/' ∉ root.toList)
    (hroot' : '/' ∉ root'.toList) (h : Text.startsWith k (rootStart root) = true)
    (h' : Text.startsWith k (rootStart root') = true) : root' = root := by
  obtain ⟨rest, rfl⟩ := Text.startsWith_iff.mp h
  have h' : Text.startsWith (contentKey root rest) (rootStart root') = true := h'
  exact (startsWith_contentKey_iff hroot hroot').mp h'

theorem startsWith_rootStart_of_lock {k : String}
    (h : Text.startsWith k (rootStart root ++ lockStart) = true) :
    Text.startsWith k (rootStart root) = true := by
  obtain ⟨rest, rfl⟩ := Text.startsWith_iff.mp h
  rw [String.append_assoc]
  exact Text.startsWith_append _ _

/-- A bundle that a sweep in memory can deal with: it has an identifier, and objects under valid
keys. -/
structure Sweepable (s : ObjectStore) (root : String) : Prop where
  slash : '/' ∉ root.toList
  safe : isPathSafe root = true
  keys : ∀ k, (s.find? k).isSome = true → Text.startsWith k (rootStart root) = true →
    Store.isValidKey k = true
  some : ∃ k, (s.find? k).isSome = true ∧ Text.startsWith k (rootStart root) = true

/-- The removal of another bundle is not felt. -/
theorem Sweepable.of_same {other : String} (h : Sweepable s other)
    (hsame : ∀ k, Text.startsWith k (rootStart other) = true → s'.find? k = s.find? k) :
    Sweepable s' other where
  slash := h.slash
  safe := h.safe
  keys := fun k hk hstart => h.keys k (hsame k hstart ▸ hk) hstart
  some := by
    obtain ⟨k, hk, hstart⟩ := h.some
    exact ⟨k, hsame k hstart ▸ hk, hstart⟩

theorem locked_congr {other : String}
    (hsame : ∀ k, Text.startsWith k (rootStart other) = true → s'.find? k = s.find? k) :
    Locked s' other ↔ Locked s other := by
  apply exists_congr
  intro k
  apply and_congr_left
  intro hlock
  rw [hsame k (startsWith_rootStart_of_lock hlock)]

/-- What collections one after the other did in memory: the locked bundles were kept as they were, of
the others nothing is left, and the report counts both. -/
structure Swept (s s' : ObjectStore) (roots kept : List String) (before after : SweepReport) :
    Prop where
  later : Later s s'
  frame : ∀ k, (∀ root ∈ roots, ¬ Locked s root → Text.startsWith k (rootStart root) = false) →
    s'.find? k = s.find? k
  gone : ∀ root ∈ roots, ¬ Locked s root → ∀ k, Text.startsWith k (rootStart root) = true →
    s'.find? k = none
  sublist : kept.Sublist roots
  mem_kept : ∀ root ∈ roots, root ∈ kept ↔ Locked s root
  locked : after.locked = before.locked + kept.length
  collected : after.collected + kept.length = before.collected + roots.length

/-- A locked bundle in front is kept. -/
theorem Swept.keep {roots kept : List String} {report after : SweepReport} {n : Nat}
    (hroot : root ∉ roots) (hlocked : Locked s root)
    (h : Swept s s' roots kept (report.add (.ok (.locked n))) after) :
    Swept s s' (root :: roots) (root :: kept) report after where
  later := h.later
  frame := fun k hk => h.frame k fun other hmem => hk other (List.mem_cons_of_mem _ hmem)
  gone := List.forall_mem_cons.mpr ⟨fun hnot => absurd hlocked hnot, h.gone⟩
  sublist := h.sublist.cons_cons root
  mem_kept := by
    refine List.forall_mem_cons.mpr ⟨by simp [hlocked], fun other hmem => ?_⟩
    rw [List.mem_cons, h.mem_kept other hmem]
    exact or_iff_right fun heq => hroot (heq ▸ hmem)
  locked := by
    have hl := h.locked
    simp only [SweepReport.add] at hl
    rw [hl, List.length_cons]
    omega
  collected := by
    have hc := h.collected
    simp only [SweepReport.add] at hc
    rw [List.length_cons, List.length_cons]
    omega

/-- A bundle in front that was collected leaves the others to be swept as before. -/
theorem Swept.drop {t : ObjectStore} {roots kept : List String} {report after : SweepReport} {n : Nat}
    (hroot : root ∉ roots) (hslash : ∀ other ∈ root :: roots, '/' ∉ other.toList)
    (hunlocked : ¬ Locked s root) (hlater : Later s t)
    (hfind : ∀ k, t.find? k = if Text.startsWith k (rootStart root) then none else s.find? k)
    (h : Swept t s' roots kept (report.add (.ok (.collected n))) after) :
    Swept s s' (root :: roots) kept report after := by
  rw [List.forall_mem_cons] at hslash
  -- a key belongs to one bundle, so the others are as they were
  have hother : ∀ other ∈ roots, ∀ k, Text.startsWith k (rootStart other) = true →
      Text.startsWith k (rootStart root) = false := by
    intro other hmem k hstart
    rw [Bool.eq_false_iff]
    intro hstart'
    exact hroot (rootStart_unique hslash.1 (hslash.2 other hmem) hstart' hstart ▸ hmem)
  have hlocked : ∀ other ∈ roots, (Locked t other ↔ Locked s other) := by
    intro other hmem
    apply locked_congr
    intro k hstart
    rw [hfind, hother other hmem k hstart, if_neg Bool.false_ne_true]
  constructor
  · exact hlater.trans h.later
  · intro k hk
    rw [List.forall_mem_cons] at hk
    rw [h.frame k fun other hmem hnot => hk.2 other hmem (mt (hlocked other hmem).mpr hnot), hfind,
      hk.1 hunlocked, if_neg Bool.false_ne_true]
  · refine List.forall_mem_cons.mpr ⟨?_, ?_⟩
    · intro _ k hstart
      rw [h.frame k fun other hmem _ => ?_, hfind, if_pos hstart]
      rw [Bool.eq_false_iff]
      intro hstart'
      rw [hother other hmem k hstart'] at hstart
      cases hstart
    · intro other hmem hnot
      exact h.gone other hmem (mt (hlocked other hmem).mp hnot)
  · exact h.sublist.cons root
  · refine List.forall_mem_cons.mpr ⟨?_, ?_⟩
    · exact ⟨fun hmem => absurd (h.sublist.subset hmem) hroot, fun hl => absurd hl hunlocked⟩
    · intro other hmem
      exact (h.mem_kept other hmem).trans (hlocked other hmem)
  · simpa [SweepReport.add] using h.locked
  · have hc := h.collected
    simp only [SweepReport.add] at hc
    rw [List.length_cons]
    omega

/-- Collections one after the other, in memory. -/
theorem sweepRoots_inMemory {roots : List String} (hs : Answers s) (hnodup : roots.Nodup)
    (hroots : ∀ root ∈ roots, Sweepable s root) (report : SweepReport) :
    ∃ after s' kept, (sweepRoots report roots).exec s = (.ok after, s') ∧
      Swept s s' roots kept report after := by
  induction roots generalizing s report with
  | nil => exact ⟨report, s, [], rfl, ⟨.refl s, by simp, by simp, .refl _, by simp, by simp, by simp⟩⟩
  | cons root roots ih =>
    rw [List.nodup_cons] at hnodup
    have hroot := hroots root List.mem_cons_self
    have hrest : ∀ other ∈ roots, Sweepable s other := fun other hother =>
      hroots other (List.mem_cons_of_mem _ hother)
    rw [sweepRoots_cons]
    rcases collect_inMemory hs hroot.safe hroot.keys hroot.some with
      ⟨hlocked, n, hcollect⟩ | ⟨hunlocked, n, t, hcollect, hlater, hfind⟩
    · rw [hcollect]
      obtain ⟨after, s', kept, hsweep, hswept⟩ := ih hs hnodup.2 hrest (report.add (.ok (.locked n)))
      exact ⟨after, s', root :: kept, hsweep, hswept.keep hnodup.1 hlocked⟩
    · rw [hcollect]
      have hsame : ∀ other ∈ roots, Sweepable t other := by
        intro other hmem
        apply (hrest other hmem).of_same
        intro k hstart
        rw [hfind, if_neg]
        intro hstart'
        exact hnodup.1 (rootStart_unique hroot.slash (hrest other hmem).slash hstart' hstart ▸ hmem)
      obtain ⟨after, s', kept, hsweep, hswept⟩ :=
        ih (hs.later hlater) hnodup.2 hsame (report.add (.ok (.collected n)))
      exact ⟨after, s', kept, hsweep,
        hswept.drop hnodup.1 (fun other hmem => (hroots other hmem).slash) hunlocked hlater hfind⟩

/-- The keys of bundles are keys of parts. -/
def WellKeyed (s : ObjectStore) : Prop :=
  ∀ k, (s.find? k).isSome = true → Text.startsWith k bundleStart = true →
    ∃ root name, IsName root ∧ isPathSafe root = true ∧ IsName name ∧ k = contentKey root name

theorem bundles_inMemory (hs : Answers s) :
    ∃ roots, (bundles).exec s = (.ok roots, s) ∧ roots.Nodup ∧
      ∀ root, root ∈ roots ↔ ∃ k, (s.find? k).isSome = true ∧ rootOf? k = some root := by
  obtain ⟨keys, hlist, hmem⟩ := list_inMemory hs.inMemory (hs.list bundleStart)
  obtain ⟨roots, hroots⟩ : ∃ roots, (bundles).exec s = (.ok roots, s) := by
    rw [bundles, bind_pure_comp, Effect.exec_map_eq, hlist]
    exact ⟨_, rfl⟩
  obtain ⟨hnodup, hroot⟩ := mem_bundles hlist hroots
  refine ⟨roots, hroots, hnodup, ?_⟩
  intro root
  rw [hroot]
  apply exists_congr
  intro k
  apply and_congr_left
  intro hk
  rw [hmem, startsWith_of_rootOf? hk]
  exact and_iff_left rfl

/-- The bundle of a part is one that a sweep can deal with. -/
theorem WellKeyed.sweepable (h : WellKeyed s) {k : String} (hk : (s.find? k).isSome = true)
    (hroot : rootOf? k = some root) : IsName root ∧ Sweepable s root := by
  obtain ⟨root', name, hname, hsafe, -, rfl⟩ := h k hk (startsWith_of_rootOf? hroot)
  rw [rootOf?_contentKey hname.slash] at hroot
  obtain rfl := Option.some.inj hroot
  refine ⟨hname, hname.slash, hsafe, fun k hk hstart => ?_, _, hk, startsWith_rootStart _ _⟩
  obtain ⟨rest, rfl⟩ := Text.startsWith_iff.mp hstart
  obtain ⟨root, part, hroot, -, hpart, heq⟩ := h _ hk (startsWith_bundleStart root' rest)
  rw [heq]
  exact isValidKey_contentKey hroot hpart

/-- Whose lock it is, a sweep leaves it. -/
theorem Swept.find?_lock {roots kept : List String} {before after : SweepReport} {k : String}
    (h : Swept s s' roots kept before after) (hroots : ∀ root ∈ roots, '/' ∉ root.toList)
    (hslash : '/' ∉ root.toList) (hlocked : Locked s root)
    (hstart : Text.startsWith k (rootStart root) = true) : s'.find? k = s.find? k := by
  apply h.frame k
  intro other hother hnot
  rw [Bool.eq_false_iff]
  intro hstart'
  exact hnot (rootStart_unique hslash (hroots other hother) hstart hstart' ▸ hlocked)

/-- Only objects of unlocked bundles are removed. -/
theorem Swept.find?_eq {roots kept : List String} {before after : SweepReport} {k : String}
    (h : Swept s s' roots kept before after) (hk : (s'.find? k).isSome = true) :
    s'.find? k = s.find? k := by
  apply h.frame k
  intro other hother hnot
  rw [Bool.eq_false_iff]
  intro hstart
  rw [h.gone other hother hnot k hstart] at hk
  cases hk

/-- A locked bundle has a key that tells its name. -/
theorem exists_key_of_locked (hname : IsName root) (hlocked : Locked s root) :
    ∃ k, (s.find? k).isSome = true ∧ Text.startsWith k (rootStart root) = true ∧
      rootOf? k = some root := by
  obtain ⟨k, hk, hlock⟩ := hlocked
  have hstart := startsWith_rootStart_of_lock hlock
  obtain ⟨rest, rfl⟩ := Text.startsWith_iff.mp hstart
  have hof : rootOf? (contentKey root rest) = some root := rootOf?_contentKey hname.slash
  exact ⟨_, hk, hstart, hof⟩

/-- After a sweep of all bundles, those are left that are locked. -/
theorem Swept.left_iff {before kept : List String} {report after : SweepReport}
    (h : Swept s s' before kept report after) (hkeys : WellKeyed s)
    (hbefore : ∀ root, root ∈ before ↔ ∃ k, (s.find? k).isSome = true ∧ rootOf? k = some root)
    (root : String) :
    (∃ k, (s'.find? k).isSome = true ∧ rootOf? k = some root) ↔ Locked s root ∧ IsName root := by
  constructor
  · rintro ⟨k, hk, hof⟩
    have hsame := h.find?_eq hk
    obtain ⟨hname, hsweepable⟩ := hkeys.sweepable (hsame ▸ hk) hof
    refine ⟨Classical.byContradiction fun hnot => ?_, hname⟩
    -- a bundle that is not locked has nothing left
    obtain ⟨other, part, hother, -, -, rfl⟩ := hkeys k (hsame ▸ hk) (startsWith_of_rootOf? hof)
    rw [rootOf?_contentKey hother.slash] at hof
    obtain rfl := Option.some.inj hof
    have hmem : other ∈ before := (hbefore other).mpr ⟨_, hsame ▸ hk, rootOf?_contentKey hname.slash⟩
    rw [h.gone other hmem hnot _ (startsWith_rootStart other part)] at hk
    cases hk
  · rintro ⟨hlocked, hname⟩
    obtain ⟨k, hk, hstart, hof⟩ := exists_key_of_locked hname hlocked
    have hslash : ∀ root ∈ before, '/' ∉ root.toList := by
      intro root hroot
      obtain ⟨k, hk, hof⟩ := (hbefore root).mp hroot
      exact (hkeys.sweepable hk hof).2.slash
    refine ⟨k, ?_, hof⟩
    rwa [h.find?_lock hslash hname.slash hlocked hstart]

/-- **A sweep in memory** leaves the bundles that are locked, as they are, and nothing of the others;
its report counts the bundles that were removed and those that were left. -/
theorem sweep_inMemory (hs : Answers s) (hkeys : WellKeyed s) :
    ∃ before report s' after, (bundles).exec s = (.ok before, s) ∧
      (sweep).exec s = (.ok report, s') ∧ (bundles).exec s' = (.ok after, s') ∧ Later s s' ∧
      (∀ root, root ∈ after ↔ Locked s root ∧ IsName root) ∧
      report.collected = (before.filter (· ∉ after)).length ∧ report.locked = after.length := by
  obtain ⟨before, hbefore, hnodup, hmem⟩ := bundles_inMemory hs
  have hroots : ∀ root ∈ before, IsName root ∧ Sweepable s root := by
    intro root hroot
    obtain ⟨k, hk, hof⟩ := (hmem root).mp hroot
    exact hkeys.sweepable hk hof
  obtain ⟨report, s', kept, hsweep, hswept⟩ :=
    sweepRoots_inMemory hs hnodup (fun root hroot => (hroots root hroot).2) {}
  obtain ⟨after, hafter, hnodup', hmem'⟩ := bundles_inMemory (hs.later hswept.later)
  have hlocked : ∀ root, root ∈ after ↔ Locked s root ∧ IsName root := fun root =>
    (hmem' root).trans (hswept.left_iff hkeys hmem root)
  -- what is listed afterwards are the bundles that were kept
  have hkept : kept.Perm after := by
    apply (List.perm_ext_iff_of_nodup (hswept.sublist.nodup hnodup) hnodup').mpr
    intro root
    rw [hlocked]
    constructor
    · intro hroot
      have hbefore := hswept.sublist.subset hroot
      exact ⟨(hswept.mem_kept root hbefore).mp hroot, (hroots root hbefore).1⟩
    · rintro ⟨hlock, hname⟩
      obtain ⟨k, hk, -, hof⟩ := exists_key_of_locked hname hlock
      exact (hswept.mem_kept root ((hmem root).mpr ⟨k, hk, hof⟩)).mpr hlock
  refine ⟨before, report, s', after, hbefore, ?_, hafter, hswept.later, hlocked, ?_, ?_⟩
  · rw [sweep, Effect.exec_bind_ok hbefore]
    exact hsweep
  · have hleft : (before.filter (· ∈ after)).Perm kept := by
      refine (List.perm_ext_iff_of_nodup (hnodup.filter _) (hswept.sublist.nodup hnodup)).mpr
        fun root => ?_
      rw [List.mem_filter, decide_eq_true_eq, ← hkept.mem_iff]
      exact and_iff_right_of_imp fun hroot => hswept.sublist.subset hroot
    -- each bundle that was listed first is listed still, or was collected
    have hcount := List.length_eq_countP_add_countP (· ∈ after) (l := before)
    rw [List.countP_eq_length_filter, List.countP_eq_length_filter, hleft.length_eq] at hcount
    have hcollected := hswept.collected
    simp only [decide_eq_true_eq, Nat.zero_add] at hcount hcollected
    omega
  · rw [hswept.locked, hkept.length_eq]
    exact Nat.zero_add _

end Syndication.Staging
