import Mathlib.Data.Finset.Sort
import Mathlib.Data.List.Induction
import Syndication.Proofs.Staging.Collect

/-!
# Proofs.Staging.Shelf — bundles are what a shelf of bundles would hold

All bundles and their locks stand in one space of keys. Seen from outside they are a shelf: for each
identifier there is the content that was staged last, and the targets that hold a lock. Every call does
to the objects what it says to the shelf, and is answered from the shelf, whatever was called before:
no identifier is taken for another that it begins with, and no lock for content.

Identifiers and targets carry the proof that they can stand in a key. The store is one in memory that
is never out of order, so a sequence of calls always goes on.

## Contents
* `Root`, `Target`, `Bundle`, `Shelf`         — the shelf
* `Call`, `run`, `Shelf.after`, `Shelf.Answers` — calls on the objects and on the shelf
* `Refines`                                   — objects that are what a shelf holds
* `refines_stage`, …, `refines_sweep`         — each call
* `Faithful`, `ofCalls_shelf`                 — any sequence of calls
-/

namespace Syndication.Staging

open ObjectStore

/-! ## The shelf -/

/-- The identifier of a bundle: it is path-safe, and the store accepts its keys. -/
structure IsRoot (root : String) : Prop where
  safe : isPathSafe root = true
  accepted : Store.isValidKey (contentKey root "title") = true

/-- Identifiers under which bundles may stand. -/
abbrev Root := { root : String // IsRoot root }

/-- Targets that may hold a lock. -/
abbrev Target := { target : String // isPathSafe target = true }

/-- What there is under an identifier: the content, if it is staged, and the targets that hold a lock. -/
structure Bundle where
  content : Option PostContent := none
  locked : Finset Target := ∅

/-- A bundle for every identifier. -/
abbrev Shelf := Root → Bundle

/-- A call. -/
inductive Call where
  | stage (root : Root) (content : PostContent)
  | createLock (root : Root) (target : Target) (jobId : String)
  | removeLock (root : Root) (target : Target)
  | load (root : Root)
  | locks (root : Root)
  | collect (root : Root)
  | sweep

/-- The answer to a call. -/
inductive Answer where
  | done
  | released (found : Bool)
  | content (content : Option PostContent)
  | targets (targets : List String)
  | collected (outcome : CollectOutcome)
  | swept (report : SweepReport)

namespace Call

/-- The identifier that a call is about; a sweep is about all. -/
def root? : Call → Option Root
  | .stage root _ | .createLock root _ _ | .removeLock root _ | .load root | .locks root
  | .collect root => some root
  | .sweep => none

/-- A call on the objects. -/
def run : Call → Effect ObjectStore Answer
  | .stage root content => (fun _ => .done) <$> Staging.stage root content
  | .createLock root target jobId => (fun _ => .done) <$> Staging.createLock root target jobId
  | .removeLock root target => .released <$> Staging.removeLock root target
  | .load root => .content <$> Staging.load root
  | .locks root => .targets <$> Staging.locks root
  | .collect root => .collected <$> Staging.collect root
  | .sweep => .swept <$> Staging.sweep

end Call

namespace Shelf

/-- The targets that hold a lock, ascending. -/
def lockList (b : Bundle) : List String := (b.locked.image (·.1)).sort

/-- What becomes of a bundle that is to be collected. -/
def outcome (b : Bundle) : CollectOutcome :=
  if b.locked.Nonempty then .locked b.locked.card
  else if b.content.isSome then .collected partNames.length
  else .missing

/-- A call on the shelf. -/
def after (b : Shelf) : Call → Shelf
  | .stage root content => Function.update b root { b root with content := some content }
  | .createLock root target _ =>
    Function.update b root { b root with locked := insert target (b root).locked }
  | .removeLock root target =>
    Function.update b root { b root with locked := (b root).locked.erase target }
  | .load _ | .locks _ => b
  | .collect root => if (b root).locked = ∅ then Function.update b root {} else b
  | .sweep => fun root => if (b root).locked = ∅ then {} else b root

/-- What the shelf answers. A sweep reports how many bundles it has collected and how many it has left. -/
def Answers (b : Shelf) : Call → Answer → Prop
  | .stage _ _, a => a = .done
  | .createLock _ _ _, a => a = .done
  | .removeLock root target, a => a = .released (target ∈ (b root).locked)
  | .load root, a => a = .content (b root).content
  | .locks root, a => a = .targets (lockList (b root))
  | .collect root, a => a = .collected (outcome (b root))
  | .sweep, a => ∃ collected kept : Finset Root,
      (∀ root, root ∈ collected ↔ (b root).locked = ∅ ∧ (b root).content.isSome = true) ∧
      (∀ root, root ∈ kept ↔ (b root).locked.Nonempty) ∧
      a = .swept ⟨collected.card, kept.card⟩

end Shelf

/-! ## Identifiers and names -/

namespace IsRoot

variable {root : String}

theorem slash (h : IsRoot root) : '/' ∉ root.toList := by
  obtain ⟨-, -, hchars⟩ := (isPathSafe_iff root).mp h.safe
  exact fun hmem => absurd (hchars _ hmem) (by decide)

theorem backslash (h : IsRoot root) : '\\' ∉ root.toList := by
  obtain ⟨-, -, hchars⟩ := (isPathSafe_iff root).mp h.safe
  exact fun hmem => absurd (hchars _ hmem) (by decide)

/-- If one key is accepted, all are. -/
theorem isValidKey (h : IsRoot root) {name : String} (hname : IsName name) :
    Store.isValidKey (contentKey root name) = true := by
  have htitle : IsName "title" := isName_part _ (by decide)
  rw [isValidKey_contentKey_iff h.slash h.backslash hname,
    ← isValidKey_contentKey_iff h.slash h.backslash htitle]
  exact h.accepted

end IsRoot

/-- There is an object of this name in the bundle. -/
def Bundle.Names (b : Bundle) (name : String) : Prop :=
  (b.content.isSome = true ∧ name ∈ partNames) ∨ ∃ target ∈ b.locked, name = lockStart ++ target.1

namespace Bundle.Names

variable {b : Bundle} {name : String}

theorem isName (h : b.Names name) : IsName name := by
  rcases h with ⟨-, hpart⟩ | ⟨target, -, rfl⟩
  · exact isName_part _ hpart
  · exact isName_lock target.2

theorem part_iff (hname : name ∈ partNames) : b.Names name ↔ b.content.isSome = true := by
  constructor
  · rintro (⟨hcontent, -⟩ | ⟨target, -, rfl⟩)
    · exact hcontent
    · have hpart := startsWith_lockStart_part _ hname
      rw [Text.startsWith_append] at hpart
      cases hpart
  · exact fun hcontent => .inl ⟨hcontent, hname⟩

theorem lock_iff {target : String} :
    b.Names (lockStart ++ target) ↔ ∃ h : isPathSafe target = true, ⟨target, h⟩ ∈ b.locked := by
  constructor
  · rintro (⟨-, hpart⟩ | ⟨target', hmem, heq⟩)
    · have hlock := startsWith_lockStart_part _ hpart
      rw [Text.startsWith_append] at hlock
      cases hlock
    · obtain rfl : target = target'.1 := by
        rw [← String.toList_inj] at heq ⊢
        simpa using heq
      exact ⟨target'.2, hmem⟩
  · rintro ⟨h, hmem⟩
    exact .inr ⟨⟨target, h⟩, hmem, rfl⟩

end Bundle.Names

/-! ## Objects that are what a shelf holds -/

/-- The objects are what the shelf holds: the parts of the content that is staged, the locks that are
held, and nothing else. -/
structure Refines (s : ObjectStore) (b : Shelf) : Prop where
  orderly : Orderly s
  holds : ∀ {root content}, (b root).content = some content → Holds s root.1 content
  named : ∀ {k}, (s.find? k).isSome = true ↔ ∃ (root : Root) (name : String),
    (b root).Names name ∧ k = contentKey root.1 name

theorem refines_empty : Refines .inMemory fun _ => {} where
  orderly := orderly_inMemory
  holds := nofun
  named := by
    intro k
    refine ⟨nofun, ?_⟩
    rintro ⟨root, name, ⟨hcontent, -⟩ | ⟨target, hmem, -⟩, -⟩
    · cases hcontent
    · cases hmem

variable {s s' : ObjectStore} {b : Shelf} {root : Root} {target : Target}

namespace Refines

/-- An object of a bundle is there if the shelf names it. -/
theorem isSome_iff (h : Refines s b) (name : String) :
    (s.find? (contentKey root.1 name)).isSome = true ↔ (b root).Names name := by
  rw [h.named]
  constructor
  · rintro ⟨other, name', hname, heq⟩
    obtain ⟨hroot, rfl⟩ := (contentKey_inj other.2.slash hname.isName.slash).mp heq
    rwa [Subtype.ext hroot]
  · exact fun hname => ⟨root, name, hname, rfl⟩

/-- A bundle with nothing in it has no objects. -/
theorem find?_of_empty (h : Refines s b) (hcontent : (b root).content = none)
    (hlocked : (b root).locked = ∅) {k : String} (hk : Text.startsWith k (rootStart root.1) = true) :
    s.find? k = none := by
  obtain ⟨name, rfl⟩ := Text.startsWith_iff.mp hk
  rw [← Option.not_isSome_iff_eq_none]
  intro hfind
  have hname : (b root).Names name := (h.isSome_iff name).mp hfind
  rcases hname with ⟨hsome, -⟩ | ⟨target, hmem, -⟩
  · rw [hcontent] at hsome
    cases hsome
  · rw [hlocked] at hmem
    cases hmem

/-- An object was put under a name of a bundle, or the objects of a bundle were removed: what is there
afterwards follows from what is named. -/
theorem of_find? (h : Refines s b) (horderly : Orderly s') {bundle : Bundle}
    (hholds : ∀ {content}, bundle.content = some content → Holds s' root.1 content)
    (hsome : ∀ name, (s'.find? (contentKey root.1 name)).isSome = true ↔ bundle.Names name)
    (hframe : ∀ k, Text.startsWith k (rootStart root.1) = false → s'.find? k = s.find? k) :
    Refines s' (Function.update b root bundle) := by
  -- the objects of other bundles have keys that begin otherwise
  have hother : ∀ {other : Root} {name : String}, other ≠ root →
      Text.startsWith (contentKey other.1 name) (rootStart root.1) = false := by
    intro other name hne
    rw [Bool.eq_false_iff, Ne, startsWith_contentKey_iff other.2.slash root.2.slash]
    exact fun heq => hne (Subtype.ext heq.symm)
  refine ⟨horderly, ?_, ?_⟩
  · intro other content hcontent
    by_cases heq : other = root
    · subst heq
      rw [Function.update_self] at hcontent
      exact hholds hcontent
    · rw [Function.update_of_ne heq] at hcontent
      exact (h.holds hcontent).of_same fun name _ => hframe _ (hother heq)
  · intro k
    constructor
    · intro hk
      by_cases hstart : Text.startsWith k (rootStart root.1) = true
      · obtain ⟨name, rfl⟩ := Text.startsWith_iff.mp hstart
        refine ⟨root, name, ?_, rfl⟩
        rw [Function.update_self]
        exact (hsome name).mp hk
      · rw [hframe k (Bool.eq_false_iff.mpr hstart), h.named] at hk
        obtain ⟨other, name, hname, rfl⟩ := hk
        refine ⟨other, name, ?_, rfl⟩
        rw [Function.update_of_ne]
        · exact hname
        · rintro rfl
          exact hstart (startsWith_rootStart _ _)
    · rintro ⟨other, name, hname, rfl⟩
      by_cases heq : other = root
      · subst heq
        rw [Function.update_self] at hname
        exact (hsome name).mpr hname
      · rw [Function.update_of_ne heq] at hname
        rw [hframe _ (hother heq)]
        exact (h.isSome_iff name).mpr hname

end Refines

/-! ## Staging and loading -/

theorem putAll_orderly {root : String} {ps : List (String × Bytes)} (hs : Orderly s)
    (hkeys : ∀ p ∈ ps, Store.isValidKey (contentKey root p.1) = true) :
    ∃ s', (putAll root ps).exec s = (.ok (), s') ∧ Orderly s' := by
  induction ps generalizing s with
  | nil => exact ⟨s, rfl, hs⟩
  | cons p ps ih =>
    rw [List.forall_mem_cons] at hkeys
    obtain ⟨t, hput, ht, -⟩ := hs.put hkeys.1 p.2
    obtain ⟨s', hrest, hs'⟩ := ih ht hkeys.2
    exact ⟨s', by rw [putAll, Effect.exec_bind_ok hput, hrest], hs'⟩

/-- **Staging** puts the content on the shelf. -/
theorem refines_stage (h : Refines s b) (root : Root) (content : PostContent) :
    ∃ s', (stage root.1 content).exec s = (.ok (), s') ∧ Refines s' (b.after (.stage root content)) := by
  have hstage : (stage root.1 content).exec s = (putAll root.1 (parts content)).exec s := by
    simp [stage, checkRoot_eq root.2.safe]
  have hkeys : ∀ p ∈ parts content, Store.isValidKey (contentKey root.1 p.1) = true :=
    fun p hp => root.2.isValidKey (isName_part _ (map_fst_parts content ▸ List.mem_map_of_mem hp))
  obtain ⟨s', hput, horderly⟩ := putAll_orderly h.orderly hkeys
  rw [← hstage] at hput
  obtain ⟨-, hframe, hheld⟩ := stage_spec h.orderly.isSound root.2.safe hput
  refine ⟨s', hput, h.of_find? horderly ?_ ?_ ?_⟩
  · rintro _ ⟨⟩
    exact hheld rfl
  · intro name
    by_cases hname : name ∈ partNames
    · rw [Bundle.Names.part_iff hname]
      obtain ⟨p, hp, rfl⟩ := List.mem_map.mp (map_fst_parts content ▸ hname)
      rw [hheld rfl p hp]
      rfl
    · -- a lock is what it was
      have hother : ∀ part ∈ partNames, contentKey root.1 name ≠ contentKey root.1 part := by
        intro part hpart heq
        rw [contentKey_right_inj] at heq
        exact hname (heq ▸ hpart)
      rw [hframe _ hother, h.isSome_iff]
      exact or_congr (iff_of_false (fun hpart => hname hpart.2) fun hpart => hname hpart.2) Iff.rfl
  · intro k hk
    apply hframe
    rintro part - rfl
    rw [startsWith_rootStart] at hk
    cases hk

/-- **Loading** answers the content on the shelf. -/
theorem exec_load_of_refines (h : Refines s b) (root : Root) :
    (load root.1).exec s = (.ok (b root).content, s) := by
  have hget : ∀ name ∈ partNames,
      (ObjectStore.get (contentKey root.1 name)).exec s = (.ok (s.find? (contentKey root.1 name)), s) :=
    fun name hname => h.orderly.get (root.2.isValidKey (isName_part _ hname))
  cases hcontent : (b root).content with
  | some content =>
    refine load_of_get root.2.safe fun p hp => ?_
    rw [hget _ (map_fst_parts content ▸ List.mem_map_of_mem hp), h.holds hcontent p hp]
  | none =>
    refine load_of_get_none root.2.safe fun name hname => ?_
    have hnone : s.find? (contentKey root.1 name) = none := by
      rw [← Option.not_isSome_iff_eq_none, h.isSome_iff, Bundle.Names.part_iff hname, hcontent]
      nofun
    rw [hget _ hname, hnone]

/-! ## Locks -/

theorem contentKey_eq_lockKey_iff {root name target : String} :
    contentKey root name = lockKey root target ↔ name = lockStart ++ target := contentKey_right_inj

/-- The object of one lock was changed. -/
theorem Refines.of_lock (h : Refines s b) (horderly : Orderly s') {locked : Finset Target}
    {object : Option Bytes}
    (hfind : ∀ k, s'.find? k = if k = lockKey root.1 target.1 then object else s.find? k)
    (hself : object.isSome = true ↔ target ∈ locked)
    (hothers : ∀ other ≠ target, (other ∈ (b root).locked ↔ other ∈ locked)) :
    Refines s' (Function.update b root { b root with locked := locked }) := by
  refine h.of_find? horderly ?_ ?_ ?_
  · intro content hcontent
    refine (h.holds hcontent).of_same fun name hpart => ?_
    rw [hfind, if_neg (contentKey_ne_lockKey hpart _)]
  · intro name
    rw [hfind]
    by_cases heq : name = lockStart ++ target.1
    · rw [if_pos (contentKey_eq_lockKey_iff.mpr heq), hself, heq, Bundle.Names.lock_iff]
      exact ⟨fun hmem => ⟨target.2, hmem⟩, fun ⟨_, hmem⟩ => hmem⟩
    · rw [if_neg (mt contentKey_eq_lockKey_iff.mp heq), h.isSome_iff]
      refine or_congr Iff.rfl (exists_congr fun other => and_congr_left fun hother => ?_)
      exact hothers other fun hsame => heq (hsame ▸ hother)
  · intro k hk
    rw [hfind, if_neg]
    rintro rfl
    rw [lockKey, startsWith_rootStart] at hk
    cases hk

/-- **Locking** puts the target on the shelf. -/
theorem refines_createLock (h : Refines s b) (root : Root) (target : Target) (jobId : String) :
    ∃ s', (createLock root.1 target.1 jobId).exec s = (.ok (), s') ∧
      Refines s' (b.after (.createLock root target jobId)) := by
  have hkey : Store.isValidKey (lockKey root.1 target.1) = true :=
    root.2.isValidKey (isName_lock target.2)
  obtain ⟨s', hput, horderly, hfind⟩ := h.orderly.put hkey (Utf8.encode jobId)
  refine ⟨s', by simp [createLock, checkRoot_eq root.2.safe, hput], h.of_lock horderly hfind ?_ ?_⟩
  · exact iff_of_true rfl (Finset.mem_insert_self _ _)
  · intro other hne
    rw [Finset.mem_insert, or_iff_right hne]

/-- **Releasing a lock** takes the target off the shelf, and tells whether it was there. -/
theorem refines_removeLock (h : Refines s b) (root : Root) (target : Target) :
    ∃ s', (removeLock root.1 target.1).exec s = (.ok (decide (target ∈ (b root).locked)), s') ∧
      Refines s' (b.after (.removeLock root target)) := by
  have hkey : Store.isValidKey (lockKey root.1 target.1) = true :=
    root.2.isValidKey (isName_lock target.2)
  obtain ⟨s', hdelete, horderly, hfind⟩ := h.orderly.delete hkey
  have hfound : (s.find? (lockKey root.1 target.1)).isSome = decide (target ∈ (b root).locked) := by
    rw [Bool.eq_iff_iff, decide_eq_true_iff, lockKey, h.isSome_iff, Bundle.Names.lock_iff]
    constructor
    · rintro ⟨_, hmem⟩
      exact hmem
    · intro hmem
      exact ⟨target.2, hmem⟩
  refine ⟨s', by simp [removeLock, checkRoot_eq root.2.safe, hdelete, hfound],
    h.of_lock horderly hfind ?_ ?_⟩
  · exact iff_of_false Bool.false_ne_true (Finset.notMem_erase _ _)
  · intro other hne
    rw [Finset.mem_erase, and_iff_right hne]

/-- What follows one beginning is in the order of the whole. -/
theorem lt_of_append_lt {start t t' : String} (h : start ++ t < start ++ t') : t < t' := by
  rcases lt_trichotomy t t' with hlt | rfl | hgt
  · exact hlt
  · exact absurd h (lt_irrefl _)
  · have hback : start ++ t' < start ++ t := by
      rw [String.lt_iff_toList_lt] at hgt ⊢
      rw [String.toList_append, String.toList_append]
      exact List.Lex.append_left _ hgt _
    exact absurd (lt_trans h hback) (lt_irrefl _)

/-- **The locks** that are listed are the targets on the shelf, ascending. -/
theorem exec_locks_of_refines (h : Refines s b) (root : Root) :
    (locks root.1).exec s = (.ok (Shelf.lockList (b root)), s) := by
  obtain ⟨keys, hlist, hascending, hmem⟩ := h.orderly.list (contentKey root.1 lockStart)
  have hlocks : (locks root.1).exec s =
      (.ok (keys.filterMap (Text.dropStart? (contentKey root.1 lockStart))), s) := by
    simp [locks, checkRoot_eq root.2.safe, hlist]
  -- keys that begin alike are ordered as their ends are
  have hpairwise : (keys.filterMap (Text.dropStart? (contentKey root.1 lockStart))).Pairwise (· < ·) := by
    rw [List.pairwise_filterMap]
    refine hascending.imp fun {k k'} hlt t ht t' ht' => ?_
    rw [Text.dropStart?_eq_some_iff] at ht ht'
    rw [ht, ht'] at hlt
    exact lt_of_append_lt hlt
  have htargets : (keys.filterMap (Text.dropStart? (contentKey root.1 lockStart))).toFinset =
      (b root).locked.image (·.1) := by
    ext t
    rw [List.mem_toFinset, List.mem_filterMap, Finset.mem_image]
    have hkey : contentKey root.1 lockStart ++ t = contentKey root.1 (lockStart ++ t) := by
      rw [contentKey, contentKey, String.append_assoc]
    constructor
    · rintro ⟨k, hk, hdrop⟩
      rw [Text.dropStart?_eq_some_iff, hkey] at hdrop
      rw [hmem, hdrop, h.isSome_iff, Bundle.Names.lock_iff] at hk
      obtain ⟨⟨hsafe, hlocked⟩, -⟩ := hk
      exact ⟨⟨t, hsafe⟩, hlocked, rfl⟩
    · rintro ⟨target, hlocked, rfl⟩
      refine ⟨contentKey root.1 lockStart ++ target.1, ?_, Text.dropStart?_eq_some_iff.mpr rfl⟩
      rw [hmem, hkey, h.isSome_iff, Bundle.Names.lock_iff]
      refine ⟨⟨target.2, hlocked⟩, ?_⟩
      rw [← hkey]
      exact Text.startsWith_append _ _
  rw [hlocks, Shelf.lockList, ← htargets]
  have hsort := (List.toFinset_sort (· ≤ ·) (hpairwise.imp fun hlt => ne_of_lt hlt)).mpr
    (hpairwise.imp fun hlt => le_of_lt hlt)
  rw [hsort]

/-! ## Collecting -/

/-- The objects of a bundle are listed, each once. -/
theorem exec_list_of_refines (h : Refines s b) (root : Root) :
    ∃ keys, (ObjectStore.list (rootStart root.1)).exec s = (.ok keys, s) ∧ keys.Nodup ∧
      ∀ k, k ∈ keys ↔ ∃ name, (b root).Names name ∧ k = contentKey root.1 name := by
  obtain ⟨keys, hlist, hascending, hmem⟩ := h.orderly.list (rootStart root.1)
  refine ⟨keys, hlist, hascending.imp fun hlt => ne_of_lt hlt, ?_⟩
  intro k
  rw [hmem]
  constructor
  · rintro ⟨hk, hstart⟩
    obtain ⟨name, rfl⟩ := Text.startsWith_iff.mp hstart
    exact ⟨name, (h.isSome_iff name).mp hk, rfl⟩
  · rintro ⟨name, hname, rfl⟩
    exact ⟨(h.isSome_iff name).mpr hname, startsWith_rootStart _ _⟩

/-- Of the objects of a bundle, so many are locks as targets hold one. -/
theorem countP_locks {bundle : Bundle} {keys : List String} {root : String} (hnodup : keys.Nodup)
    (hmem : ∀ k, k ∈ keys ↔ ∃ name, bundle.Names name ∧ k = contentKey root name) :
    keys.countP (Text.startsWith · (rootStart root ++ lockStart)) = bundle.locked.card := by
  have hlocks : (keys.filter (Text.startsWith · (rootStart root ++ lockStart))).toFinset =
      bundle.locked.image fun target => lockKey root target.1 := by
    ext k
    rw [List.mem_toFinset, List.mem_filter, hmem, Finset.mem_image]
    constructor
    · rintro ⟨⟨name, hname, rfl⟩, hstart⟩
      obtain ⟨t, heq⟩ := Text.startsWith_iff.mp hstart
      rw [String.append_assoc] at heq
      have hlock : name = lockStart ++ t := contentKey_right_inj.mp heq
      rw [hlock, Bundle.Names.lock_iff] at hname
      obtain ⟨hsafe, hlocked⟩ := hname
      exact ⟨⟨t, hsafe⟩, hlocked, by rw [hlock]; rfl⟩
    · rintro ⟨target, hlocked, rfl⟩
      refine ⟨⟨_, .inr ⟨target, hlocked, rfl⟩, rfl⟩, Text.startsWith_iff.mpr ⟨target.1, ?_⟩⟩
      rw [String.append_assoc]
      rfl
  have hinj : Function.Injective fun target : Target => lockKey root target.1 :=
    fun target other heq => Subtype.ext (lockKey_right_inj.mp heq)
  rw [List.countP_eq_length_filter, ← List.toFinset_card_of_nodup (hnodup.filter _), hlocks,
    Finset.card_image_of_injective _ hinj]

/-- The objects of a bundle without locks are the parts of its content. -/
theorem length_parts {bundle : Bundle} {keys : List String} {root : String} (hnodup : keys.Nodup)
    (hmem : ∀ k, k ∈ keys ↔ ∃ name, bundle.Names name ∧ k = contentKey root name)
    (hlocked : bundle.locked = ∅) (hcontent : bundle.content.isSome = true) :
    keys.length = partNames.length := by
  have hparts : (partNames.map (contentKey root)).Nodup :=
    (by decide : partNames.Nodup).map fun _ _ => contentKey_right_inj.mp
  have hperm : keys.Perm (partNames.map (contentKey root)) := by
    refine (List.perm_ext_iff_of_nodup hnodup hparts).mpr fun k => ?_
    rw [hmem, List.mem_map]
    constructor
    · rintro ⟨name, ⟨-, hname⟩ | ⟨target, hmem, -⟩, rfl⟩
      · exact ⟨name, hname, rfl⟩
      · rw [hlocked] at hmem
        cases hmem
    · rintro ⟨name, hname, rfl⟩
      exact ⟨name, .inl ⟨hcontent, hname⟩, rfl⟩
  rw [hperm.length_eq, List.length_map]

/-- Deletions of objects that are there. -/
theorem deleteAll_orderly {keys : List String} (hs : Orderly s) (hnodup : keys.Nodup)
    (hkeys : ∀ k ∈ keys, Store.isValidKey k = true ∧ (s.find? k).isSome = true) :
    ∃ s', (deleteAll keys).exec s = (.ok keys.length, s') ∧ Orderly s' ∧
      ∀ k, s'.find? k = if k ∈ keys then none else s.find? k := by
  induction keys generalizing s with
  | nil => exact ⟨s, rfl, hs, fun k => by simp⟩
  | cons key keys ih =>
    rw [List.nodup_cons] at hnodup
    rw [List.forall_mem_cons] at hkeys
    obtain ⟨t, hdelete, ht, hfind⟩ := hs.delete hkeys.1.1
    have hthere : ∀ k ∈ keys, Store.isValidKey k = true ∧ (t.find? k).isSome = true := by
      intro k hk
      have hne : k ≠ key := fun heq => hnodup.1 (heq ▸ hk)
      rw [hfind, if_neg hne]
      exact hkeys.2 k hk
    obtain ⟨s', hrest, hs', hfind'⟩ := ih ht hnodup.2 hthere
    refine ⟨s', ?_, hs', ?_⟩
    · rw [deleteAll, Effect.exec_bind_ok hdelete, Effect.exec_bind_ok hrest, hkeys.1.2, if_pos rfl,
        Nat.add_comm]
      rfl
    · intro k
      rw [hfind', hfind]
      by_cases hk : k = key
      · simp [hk]
      · simp [hk]

/-- A bundle that is locked is left as it is. -/
theorem collect_of_locked (h : Refines s b) (root : Root) (hlocked : (b root).locked.Nonempty) :
    (collect root.1).exec s = (.ok (.locked (b root).locked.card), s) := by
  obtain ⟨keys, hlist, hnodup, hmem⟩ := exec_list_of_refines h root
  obtain ⟨target, htarget⟩ := hlocked
  have hne : keys.isEmpty = false := by
    rw [List.isEmpty_eq_false_iff_exists_mem]
    exact ⟨_, (hmem _).mpr ⟨_, .inr ⟨target, htarget, rfl⟩, rfl⟩⟩
  rw [collect_eq root.2.safe hlist, countP_locks hnodup hmem, hne, if_neg Bool.false_ne_true,
    if_pos (Finset.card_pos.mpr ⟨target, htarget⟩)]

/-- A bundle with nothing in it is missed. -/
theorem collect_of_empty (h : Refines s b) (root : Root) (hlocked : (b root).locked = ∅)
    (hcontent : (b root).content = none) : (collect root.1).exec s = (.ok .missing, s) := by
  obtain ⟨keys, hlist, -, hmem⟩ := exec_list_of_refines h root
  have hnil : keys = [] := by
    refine List.eq_nil_iff_forall_not_mem.mpr fun k hk => ?_
    obtain ⟨name, -, rfl⟩ := (hmem k).mp hk
    obtain ⟨name', hname, heq⟩ := (hmem _).mp hk
    have hnone := h.find?_of_empty hcontent hlocked (startsWith_rootStart root.1 name)
    rw [heq, ← Option.not_isSome_iff_eq_none, h.isSome_iff] at hnone
    exact hnone hname
  rw [collect_eq root.2.safe hlist, hnil]
  rfl

/-- Of a bundle that is not locked nothing is left. -/
theorem collect_of_unlocked (h : Refines s b) (root : Root) (hlocked : (b root).locked = ∅)
    (hcontent : (b root).content.isSome = true) :
    ∃ s', (collect root.1).exec s = (.ok (.collected partNames.length), s') ∧
      Refines s' (Function.update b root {}) := by
  obtain ⟨keys, hlist, hnodup, hmem⟩ := exec_list_of_refines h root
  have hlength : keys.length = partNames.length := length_parts hnodup hmem hlocked hcontent
  obtain ⟨s', hdelete, horderly, hfind⟩ := deleteAll_orderly h.orderly hnodup fun k hk => by
    obtain ⟨name, hname, rfl⟩ := (hmem k).mp hk
    exact ⟨root.2.isValidKey hname.isName, (h.isSome_iff name).mpr hname⟩
  have hne : keys.isEmpty = false := by
    rw [List.isEmpty_eq_false_iff, ← List.length_pos_iff, hlength]
    decide
  have hcount := countP_locks hnodup hmem
  rw [hlocked, Finset.card_empty] at hcount
  refine ⟨s', ?_, h.of_find? horderly nofun ?_ ?_⟩
  · rw [collect_eq root.2.safe hlist, hcount, hne, if_neg Bool.false_ne_true,
      if_neg (Nat.lt_irrefl 0), hdelete, hlength]
    rfl
  · intro name
    refine iff_of_false ?_ (by rintro (⟨hsome, -⟩ | ⟨target, hmem, -⟩) <;> contradiction)
    rw [hfind]
    split
    · nofun
    · rename_i hk
      rw [h.isSome_iff]
      exact fun hname => hk ((hmem _).mpr ⟨name, hname, rfl⟩)
  · intro k hk
    rw [hfind, if_neg]
    intro hlisted
    obtain ⟨name, -, rfl⟩ := (hmem k).mp hlisted
    rw [startsWith_rootStart] at hk
    cases hk

/-- **Collecting** takes a bundle off the shelf unless a target holds a lock. -/
theorem refines_collect (h : Refines s b) (root : Root) :
    ∃ s', (collect root.1).exec s = (.ok (Shelf.outcome (b root)), s') ∧
      Refines s' (b.after (.collect root)) ∧ ((b root).locked.Nonempty → s' = s) := by
  simp only [Shelf.outcome, Shelf.after]
  by_cases hlocked : (b root).locked = ∅
  case neg =>
    have hsome : (b root).locked.Nonempty := Finset.nonempty_iff_ne_empty.mpr hlocked
    rw [if_pos hsome, if_neg hlocked]
    exact ⟨s, collect_of_locked h root hsome, h, fun _ => rfl⟩
  have hnone : ¬ (b root).locked.Nonempty := Finset.not_nonempty_iff_eq_empty.mpr hlocked
  rw [if_neg hnone, if_pos hlocked]
  cases hcontent : (b root).content with
  | none =>
    have hbare : b root = {} := by
      rw [← hcontent, ← hlocked]
    rw [← hbare, Function.update_eq_self]
    exact ⟨s, collect_of_empty h root hlocked hcontent, h, fun _ => rfl⟩
  | some content =>
    obtain ⟨s', hcollect, hrefines⟩ := collect_of_unlocked h root hlocked (by rw [hcontent]; rfl)
    exact ⟨s', hcollect, hrefines, fun hsome => absurd hsome hnone⟩

/-! ## Sweeping -/

/-- The shelf without those bundles of a list that are not locked. -/
def Shelf.cleared (b : Shelf) (roots : List Root) : Shelf :=
  fun root => if root ∈ roots ∧ (b root).locked = ∅ then {} else b root

/-- A bundle in front that is locked is not cleared. -/
theorem Shelf.cleared_of_locked {roots : List Root} (hlocked : (b root).locked ≠ ∅) :
    b.cleared (root :: roots) = b.cleared roots := by
  funext other
  by_cases hother : other = root
  · subst hother
    rw [cleared, cleared, if_neg fun h => hlocked h.2, if_neg fun h => hlocked h.2]
  · simp only [cleared, List.mem_cons, hother, false_or]

/-- A bundle in front that is not locked is cleared first. -/
theorem Shelf.cleared_of_unlocked {roots : List Root} (hlocked : (b root).locked = ∅) :
    b.cleared (root :: roots) = Shelf.cleared (Function.update b root {}) roots := by
  funext other
  by_cases hother : other = root
  · subst hother
    simp [cleared, hlocked]
  · simp only [cleared, List.mem_cons, hother, false_or, Function.update_of_ne hother]

/-- Collections of bundles one after the other. Each bundle has something in it. -/
theorem refines_sweepRoots {roots : List Root} (h : Refines s b) (hnodup : roots.Nodup)
    (hfilled : ∀ root ∈ roots, (b root).locked = ∅ → (b root).content.isSome = true)
    (report : SweepReport) :
    ∃ s', (sweepRoots report (roots.map (·.1))).exec s =
        (.ok ⟨report.collected + roots.countP fun root => (b root).locked = ∅,
          report.locked + roots.countP fun root => (b root).locked ≠ ∅⟩, s') ∧
      Refines s' (b.cleared roots) := by
  induction roots generalizing s b report with
  | nil =>
    refine ⟨s, rfl, ?_⟩
    have hsame : b.cleared [] = b := funext fun root => if_neg fun hmem => List.not_mem_nil hmem.1
    rw [hsame]
    exact h
  | cons root roots ih =>
    rw [List.nodup_cons] at hnodup
    rw [List.forall_mem_cons] at hfilled
    rw [List.map_cons, sweepRoots_cons]
    by_cases hlocked : (b root).locked = ∅
    · obtain ⟨t, hcollect, ht⟩ := collect_of_unlocked h root hlocked (hfilled.1 hlocked)
      -- the other bundles are what they were
      have hother : ∀ other ∈ roots, Function.update b root {} other = b other := by
        intro other hmem
        refine Function.update_of_ne ?_ _ _
        rintro rfl
        exact hnodup.1 hmem
      have hcount : ∀ p : Bundle → Bool, roots.countP (fun other => p (Function.update b root {} other)) =
          roots.countP fun other => p (b other) :=
        fun p => List.countP_congr fun other hmem => by rw [hother other hmem]
      rw [hcollect, Shelf.cleared_of_unlocked hlocked]
      obtain ⟨s', hsweep, hs'⟩ := ih ht hnodup.2
        (fun other hmem => hother other hmem ▸ hfilled.2 other hmem)
        (report.add (.ok (.collected partNames.length)))
      refine ⟨s', ?_, hs'⟩
      rw [hsweep, List.countP_cons_of_pos (by simpa using hlocked),
        List.countP_cons_of_neg (by simpa using hlocked), hcount fun bundle => bundle.locked = ∅,
        hcount fun bundle => bundle.locked ≠ ∅]
      simp only [SweepReport.add, Nat.add_assoc, Nat.add_comm 1]
    · have hsome : (b root).locked.Nonempty := Finset.nonempty_iff_ne_empty.mpr hlocked
      rw [collect_of_locked h root hsome, Shelf.cleared_of_locked hlocked]
      obtain ⟨s', hsweep, hs'⟩ := ih h hnodup.2 hfilled.2 (report.add (.ok (.locked (b root).locked.card)))
      refine ⟨s', ?_, hs'⟩
      rw [hsweep, List.countP_cons_of_neg (by simpa using hlocked),
        List.countP_cons_of_pos (by simpa using hlocked)]
      simp only [SweepReport.add, Nat.add_assoc, Nat.add_comm 1]

/-- The bundles that have something in them are listed, each once. -/
theorem exec_bundles_of_refines (h : Refines s b) :
    ∃ roots : List Root, (bundles).exec s = (.ok (roots.map (·.1)), s) ∧ roots.Nodup ∧
      ∀ root, root ∈ roots ↔ (b root).content.isSome = true ∨ (b root).locked ≠ ∅ := by
  have hanswers : Answers s := ⟨h.orderly.inMemory, fun _ => by rw [h.orderly.outage],
    fun _ => by rw [h.orderly.outage]⟩
  obtain ⟨names, hbundles, hnodup, hmem⟩ := bundles_inMemory hanswers
  -- every key is a name in a bundle of a root, so the names that are listed are roots
  have hroot : ∀ name ∈ names, IsRoot name := by
    intro name hname
    obtain ⟨k, hk, hof⟩ := (hmem name).mp hname
    obtain ⟨root, part, -, rfl⟩ := h.named.mp hk
    rw [rootOf?_contentKey root.2.slash] at hof
    exact Option.some.inj hof ▸ root.2
  have hvalues : (names.attachWith IsRoot hroot).map (·.1) = names :=
    List.attachWith_map_subtype_val hroot
  refine ⟨names.attachWith IsRoot hroot, by rw [hvalues, hbundles], ?_, ?_⟩
  · exact List.Nodup.of_map (·.1) (hvalues.symm ▸ hnodup)
  · intro root
    rw [List.mem_attachWith, hmem]
    constructor
    · rintro ⟨k, hk, hof⟩
      obtain ⟨other, part, hpart, rfl⟩ := h.named.mp hk
      rw [rootOf?_contentKey other.2.slash] at hof
      obtain rfl : other = root := Subtype.ext (Option.some.inj hof)
      rcases hpart with ⟨hcontent, -⟩ | ⟨target, htarget, -⟩
      · exact .inl hcontent
      · exact .inr (Finset.ne_empty_of_mem htarget)
    · have hnamed : ∀ {name}, (b root).Names name →
          ∃ k, (s.find? k).isSome = true ∧ rootOf? k = some root.1 :=
        fun hname => ⟨_, (h.isSome_iff _).mpr hname, rootOf?_contentKey root.2.slash⟩
      rintro (hcontent | hlocked)
      · exact hnamed (.inl ⟨hcontent, List.mem_cons_self⟩)
      · obtain ⟨target, htarget⟩ := Finset.nonempty_iff_ne_empty.mpr hlocked
        exact hnamed (.inr ⟨target, htarget, rfl⟩)

/-- **Sweeping** takes all bundles off the shelf that are not locked. -/
theorem refines_sweep (h : Refines s b) :
    ∃ a s', (sweep).exec s = (.ok a, s') ∧ b.Answers .sweep (.swept a) ∧ Refines s' (b.after .sweep) := by
  obtain ⟨roots, hbundles, hnodup, hmem⟩ := exec_bundles_of_refines h
  have hfilled : ∀ root ∈ roots, (b root).locked = ∅ → (b root).content.isSome = true := by
    intro root hroot hlocked
    exact ((hmem root).mp hroot).resolve_right fun hne => hne hlocked
  obtain ⟨s', hsweep, hs'⟩ := refines_sweepRoots h hnodup hfilled {}
  have hexec : (sweep).exec s = (sweepRoots {} (roots.map (·.1))).exec s := by
    rw [sweep, Effect.exec_bind_ok hbundles]
  refine ⟨_, s', hexec.trans hsweep, ⟨(roots.filter fun root => (b root).locked = ∅).toFinset,
    (roots.filter fun root => (b root).locked ≠ ∅).toFinset, ?_, ?_, ?_⟩, ?_⟩
  · intro root
    simp only [List.mem_toFinset, List.mem_filter, hmem, decide_eq_true_eq]
    constructor
    · rintro ⟨hsome, hlocked⟩
      exact ⟨hlocked, hsome.resolve_right fun hne => hne hlocked⟩
    · rintro ⟨hlocked, hcontent⟩
      exact ⟨.inl hcontent, hlocked⟩
  · intro root
    simp only [List.mem_toFinset, List.mem_filter, hmem, decide_eq_true_eq,
      Finset.nonempty_iff_ne_empty]
    exact ⟨And.right, fun hlocked => ⟨.inr hlocked, hlocked⟩⟩
  · rw [List.toFinset_card_of_nodup (hnodup.filter _), List.toFinset_card_of_nodup (hnodup.filter _),
      ← List.countP_eq_length_filter, ← List.countP_eq_length_filter]
    simp
  · have hall : b.cleared roots = b.after .sweep := by
      funext root
      simp only [Shelf.cleared, Shelf.after]
      by_cases hlocked : (b root).locked = ∅
      · rw [if_pos hlocked]
        split
        · rfl
        · rename_i hnot
          -- what was not listed is bare
          have hcontent : (b root).content = none := by
            rw [← Option.not_isSome_iff_eq_none]
            exact fun hsome => hnot ⟨(hmem root).mpr (.inl hsome), hlocked⟩
          rw [← hcontent, ← hlocked]
      · rw [if_neg hlocked, if_neg fun hand => hlocked hand.2]
    exact hall ▸ hs'

/-- A sweep leaves every object of a bundle that is locked. -/
theorem Refines.find?_sweep (h : Refines s b) (hlocked : (b root).locked ≠ ∅) {k : String}
    (hk : Text.startsWith k (rootStart root.1) = true) :
    (Call.sweep.run.exec s).2.find? k = s.find? k := by
  have hrun : (Call.sweep.run.exec s).2 = ((sweep).exec s).2 := by
    rw [Call.run, Effect.exec_map_eq]
  rw [hrun]
  rcases (sweep_frame (r := ((sweep).exec s).1) h.orderly.isSound rfl).2 k with
    hsame | ⟨-, other, hslash, hstart, hunlocked⟩
  · exact hsame
  · obtain rfl := rootStart_unique root.2.slash hslash hk hstart
    obtain ⟨target, htarget⟩ := Finset.nonempty_iff_ne_empty.mpr hlocked
    have hlock : (s.find? (lockKey root.1 target.1)).isSome = true :=
      (h.isSome_iff _).mpr (.inr ⟨target, htarget, rfl⟩)
    rw [hunlocked target.1 target.2] at hlock
    cases hlock

/-! ## Sequences of calls -/

/-- **One call** does to the objects what it does to the shelf, and is answered from the shelf. -/
theorem refines_run (h : Refines s b) (call : Call) :
    ∃ answer s', call.run.exec s = (.ok answer, s') ∧ b.Answers call answer ∧
      Refines s' (b.after call) := by
  cases call with
  | stage root content =>
    obtain ⟨s', hexec, hs'⟩ := refines_stage h root content
    exact ⟨.done, s', by simp [Call.run, hexec], rfl, hs'⟩
  | createLock root target jobId =>
    obtain ⟨s', hexec, hs'⟩ := refines_createLock h root target jobId
    exact ⟨.done, s', by simp [Call.run, hexec], rfl, hs'⟩
  | removeLock root target =>
    obtain ⟨s', hexec, hs'⟩ := refines_removeLock h root target
    exact ⟨_, s', by simp only [Call.run, Effect.exec_map_eq, hexec]; rfl, rfl, hs'⟩
  | load root =>
    have hexec := exec_load_of_refines h root
    exact ⟨_, s, by simp only [Call.run, Effect.exec_map_eq, hexec]; rfl, rfl, h⟩
  | locks root =>
    have hexec := exec_locks_of_refines h root
    exact ⟨_, s, by simp only [Call.run, Effect.exec_map_eq, hexec]; rfl, rfl, h⟩
  | collect root =>
    obtain ⟨s', hexec, hs', -⟩ := refines_collect h root
    exact ⟨_, s', by simp only [Call.run, Effect.exec_map_eq, hexec]; rfl, rfl, hs'⟩
  | sweep =>
    obtain ⟨report, s', hexec, hanswer, hs'⟩ := refines_sweep h
    exact ⟨_, s', by simp only [Call.run, Effect.exec_map_eq, hexec]; rfl, hanswer, hs'⟩

/-- The store that calls leave. -/
def storeOf (calls : List Call) : ObjectStore :=
  calls.foldl (fun s call => (call.run.exec s).2) .inMemory

/-- The shelf that calls leave. -/
def shelfOf (calls : List Call) : Shelf := calls.foldl Shelf.after fun _ => {}

theorem storeOf_concat (calls : List Call) (call : Call) :
    storeOf (calls ++ [call]) = (call.run.exec (storeOf calls)).2 := by
  rw [storeOf, List.foldl_append]
  rfl

theorem shelfOf_concat (calls : List Call) (call : Call) :
    shelfOf (calls ++ [call]) = (shelfOf calls).after call := by
  rw [shelfOf, List.foldl_append]
  rfl

/-- **Any sequence of calls** leaves the objects that the shelf holds. -/
theorem refines_ofCalls (calls : List Call) : Refines (storeOf calls) (shelfOf calls) := by
  induction calls using List.reverseRecOn with
  | nil => exact refines_empty
  | append_singleton calls call ih =>
    obtain ⟨answer, s', hexec, -, hs'⟩ := refines_run ih call
    rw [storeOf_concat, shelfOf_concat, hexec]
    exact hs'

/-- Calls about one bundle leave the others on the shelf. -/
theorem Shelf.after_other {call : Call} {other : Root} (hroot : call.root? = some root)
    (hother : other ≠ root) : b.after call other = b other := by
  cases call with
  | stage | createLock | removeLock =>
    obtain rfl := Option.some.inj hroot
    exact Function.update_of_ne hother _ _
  | load | locks => rfl
  | collect =>
    obtain rfl := Option.some.inj hroot
    simp only [after]
    split
    · exact Function.update_of_ne hother _ _
    · rfl
  | sweep => cases hroot

/-- **What calls on staged content do**, seen from a shelf of bundles. -/
structure Faithful (calls : List Call) : Prop where
  /-- The next call is answered from the shelf that the calls leave. -/
  answers (call : Call) : ∃ answer, (call.run.exec (storeOf calls)).1 = .ok answer ∧
    (shelfOf calls).Answers call answer
  /-- Loading and listing locks change nothing. -/
  reads (root : Root) : storeOf (calls ++ [.load root]) = storeOf calls ∧
    storeOf (calls ++ [.locks root]) = storeOf calls
  /-- Of a bundle that is not locked a collection leaves no object. -/
  collects (root : Root) : (shelfOf calls root).locked = ∅ → ∀ k,
    Text.startsWith k (rootStart root.1) = true → (storeOf (calls ++ [.collect root])).find? k = none
  /-- If a target holds a lock, a collection changes nothing. -/
  keeps (root : Root) : (shelfOf calls root).locked ≠ ∅ →
    storeOf (calls ++ [.collect root]) = storeOf calls
  /-- A sweep leaves no object of a bundle that is not locked, and every object of one that is. -/
  sweeps (root : Root) : ∀ k, Text.startsWith k (rootStart root.1) = true →
    (storeOf (calls ++ [.sweep])).find? k =
      if (shelfOf calls root).locked = ∅ then none else (storeOf calls).find? k
  /-- A call about one bundle changes neither the content nor the locks of another. -/
  others {call : Call} {root other : Root} : call.root? = some root → other ≠ root →
    ((load other.1).exec (storeOf (calls ++ [call]))).1 = ((load other.1).exec (storeOf calls)).1 ∧
    ((locks other.1).exec (storeOf (calls ++ [call]))).1 = ((locks other.1).exec (storeOf calls)).1

/-- **Staged content is a shelf of bundles**, whatever calls have been made. -/
theorem ofCalls_shelf (calls : List Call) : Faithful calls := by
  have h := refines_ofCalls calls
  refine ⟨?_, ?_, ?_, ?_, ?_, ?_⟩
  · intro call
    obtain ⟨answer, s', hexec, hanswer, -⟩ := refines_run h call
    exact ⟨answer, by rw [hexec], hanswer⟩
  · intro root
    rw [storeOf_concat, storeOf_concat]
    simp [Call.run, exec_load_of_refines h root, exec_locks_of_refines h root]
  · intro root hlocked k hk
    have hnext := refines_ofCalls (calls ++ [.collect root])
    have hbare : shelfOf (calls ++ [.collect root]) root = {} := by
      rw [shelfOf_concat, Shelf.after, if_pos hlocked, Function.update_self]
    exact hnext.find?_of_empty (by rw [hbare]) (by rw [hbare]) hk
  · intro root hlocked
    obtain ⟨s', hexec, -, hsame⟩ := refines_collect h root
    have hsame := hsame (Finset.nonempty_iff_ne_empty.mpr hlocked)
    rw [storeOf_concat]
    simp [Call.run, hexec, hsame]
  · intro root k hk
    split
    · rename_i hlocked
      have hnext := refines_ofCalls (calls ++ [.sweep])
      have hbare : shelfOf (calls ++ [.sweep]) root = {} := by
        rw [shelfOf_concat]
        exact if_pos hlocked
      exact hnext.find?_of_empty (by rw [hbare]) (by rw [hbare]) hk
    · rename_i hlocked
      rw [storeOf_concat]
      exact h.find?_sweep hlocked hk
  · intro call root other hroot hother
    have hnext := refines_ofCalls (calls ++ [call])
    have hsame : shelfOf (calls ++ [call]) other = shelfOf calls other := by
      rw [shelfOf_concat, Shelf.after_other hroot hother]
    rw [exec_load_of_refines hnext other, exec_load_of_refines h other,
      exec_locks_of_refines hnext other, exec_locks_of_refines h other, hsame]
    exact ⟨rfl, rfl⟩

/-- Two identifiers of which one begins with the other, a third that begins with a dot, and a target with
the name of a part: a lock of the first bundle keeps it, and it keeps neither of the others. -/
theorem ofCalls_shelf_names :
    let a : Root := ⟨"a", by decide, by decide⟩
    let ab : Root := ⟨"ab", by decide, by decide⟩
    let dot : Root := ⟨".a", by decide, by decide⟩
    let title : Target := ⟨"title", by decide⟩
    let calls : List Call := [.stage a { title := "é" }, .stage ab { tags := ["\"", ""] },
      .stage dot {}, .createLock a title "j", .createLock dot title "j", .removeLock dot title]
    storeOf (calls ++ [.collect a]) = storeOf calls ∧
      (∀ k, Text.startsWith k (rootStart "ab") = true →
        (storeOf (calls ++ [.collect ab])).find? k = none) ∧
      ∀ k, Text.startsWith k (rootStart ".a") = true →
        (storeOf (calls ++ [.sweep])).find? k = none := by
  intro a ab dot title calls
  have h := ofCalls_shelf calls
  refine ⟨h.keeps a (by decide), h.collects ab (by decide), ?_⟩
  intro k hk
  exact (h.sweeps dot k hk).trans (if_pos (by decide))

end Syndication.Staging
