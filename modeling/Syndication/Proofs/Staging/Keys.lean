import Syndication.Proofs.Identifier
import Syndication.Proofs.Text.Pieces
import Syndication.Staging

/-!
# Proofs.Staging.Keys — where the parts of a bundle stand

The key of a part has three segments: the space of bundles, the identifier of the post and the name
of the part. Names hold no slash, so the key tells the identifier and the name, and no two parts stand
at one place. A lock is a part whose name begins as no other part's does.

## Contents
* `IsName`                                  — names that may stand in a key
* `segments_contentKey`, `isValidKey_contentKey`
* `contentKey_inj`, `lockKey_inj`           — keys tell what they are of
* `startsWith_contentKey_iff`, `rootOf?_contentKey`
* `partNames`, `contentKey_ne_lockKey`      — content and locks
-/

namespace Syndication.Staging

open Store

/-! ## Names -/

/-- A name that may stand anywhere in a key: there is something of it, it separates nothing, and it
does not begin with a dot. -/
structure IsName (s : String) : Prop where
  nonempty : s ≠ ""
  slash : '/' ∉ s.toList
  backslash : '\\' ∉ s.toList
  dot : s.toList.head? ≠ some '.'

namespace IsName

variable {s : String}

theorem isPlainSegment (h : IsName s) : isPlainSegment s = true := by
  have hdot : s ≠ "." := fun heq => h.dot (by rw [heq]; rfl)
  have hdots : s ≠ ".." := fun heq => h.dot (by rw [heq]; rfl)
  simp [Store.isPlainSegment, h.nonempty, hdot, hdots]

/-- A name is not taken for an unfinished file. -/
theorem isFinished (h : IsName s) : Text.startsWith s tempStart = false := by
  rw [Bool.eq_false_iff]
  intro hstart
  obtain ⟨rest, rfl⟩ := Text.startsWith_iff.mp hstart
  exact h.dot (by simp [tempStart])

end IsName

theorem isName_of_isPathSafe {s : String} (h : isPathSafe s = true)
    (hdot : s.toList.head? ≠ some '.') : IsName s := by
  obtain ⟨hne, -, hchars⟩ := (isPathSafe_iff s).mp h
  refine ⟨hne, ?_, ?_, hdot⟩
  · intro hmem
    exact absurd (hchars _ hmem) (by decide)
  · intro hmem
    exact absurd (hchars _ hmem) (by decide)

/-- A fresh identifier is a name. -/
theorem isName_idOf (issuer : Issuer) (n : Nat) : IsName (issuer.idOf n) := by
  apply isName_of_isPathSafe (issuer.isPathSafe_idOf n)
  intro hdot
  obtain ⟨d, hd, heq⟩ := Hex.exists_digit_of_mem_ofNat (List.mem_of_mem_head? hdot)
  exact (isPathSafeChar_digitChar d hd).2 heq.symm

/-- The name of the lock of a target. -/
theorem isName_lock {target : String} (h : isPathSafe target = true) : IsName (lockStart ++ target) := by
  obtain ⟨-, -, hchars⟩ := (isPathSafe_iff target).mp h
  refine ⟨?_, ?_, ?_, ?_⟩
  · intro hempty
    have := congrArg String.toList hempty
    simp [lockStart] at this
  · intro hmem
    rw [String.toList_append, List.mem_append] at hmem
    exact hmem.elim (by decide) fun hmem => absurd (hchars _ hmem) (by decide)
  · intro hmem
    rw [String.toList_append, List.mem_append] at hmem
    exact hmem.elim (by decide) fun hmem => absurd (hchars _ hmem) (by decide)
  · simp [lockStart]

/-! ## Keys -/

variable {root root' name name' : String}

/-- The segments of a key, whatever its parts. -/
theorem segments_contentKey_eq (root name : String) :
    segments (contentKey root name) = "post" :: (Text.split '/' root ++ Text.split '/' name) := by
  have hkey : contentKey root name = "post" ++ "/" ++ (root ++ "/" ++ name) := by
    apply String.toList_inj.mp
    simp [contentKey, bundleStart]
  have hpost : Text.split '/' "post" = ["post"] := Text.split_eq_singleton (by decide)
  calc segments (contentKey root name)
      = Text.split '/' ("post" ++ "/" ++ (root ++ "/" ++ name)) := by rw [segments, hkey]
    _ = Text.split '/' "post" ++ Text.split '/' (root ++ "/" ++ name) := Text.split_append '/' _ _
    _ = Text.split '/' "post" ++ (Text.split '/' root ++ Text.split '/' name) :=
        congrArg _ (Text.split_append '/' root name)
    _ = "post" :: (Text.split '/' root ++ Text.split '/' name) := by rw [hpost]; rfl

theorem segments_contentKey (hroot : '/' ∉ root.toList) (hname : '/' ∉ name.toList) :
    segments (contentKey root name) = ["post", root, name] := by
  rw [segments_contentKey_eq, Text.split_eq_singleton hroot, Text.split_eq_singleton hname]
  rfl

/-- The key of a part is accepted if its identifier names an entry of a directory. -/
theorem isValidKey_contentKey_iff (hslash : '/' ∉ root.toList) (hback : '\\' ∉ root.toList)
    (hname : IsName name) :
    isValidKey (contentKey root name) = true ↔ Store.isPlainSegment root = true := by
  have hback : '\\' ∉ (contentKey root name).toList := by
    simp [contentKey, bundleStart, hback, hname.backslash]
  rw [isValidKey, segments_contentKey hslash hname.slash]
  have hpost : Store.isPlainSegment "post" = true := by decide
  simp [hback, hpost, hname.isPlainSegment, hname.isFinished]

theorem isValidKey_contentKey (hroot : IsName root) (hname : IsName name) :
    isValidKey (contentKey root name) = true :=
  (isValidKey_contentKey_iff hroot.slash hroot.backslash hname).mpr hroot.isPlainSegment

theorem isValidKey_lockKey (hroot : IsName root) {target : String} (h : isPathSafe target = true) :
    isValidKey (lockKey root target) = true :=
  isValidKey_contentKey hroot (isName_lock h)

/-- A key tells whose part it is of, and which: no other text leads to the same place. -/
theorem contentKey_inj (hroot : '/' ∉ root.toList) (hname : '/' ∉ name.toList) :
    contentKey root' name' = contentKey root name ↔ root' = root ∧ name' = name := by
  constructor
  · intro heq
    have hseg := congrArg segments heq
    rw [segments_contentKey hroot hname, segments_contentKey_eq, List.cons.injEq] at hseg
    -- each of the two has at least one segment, so each has just one
    obtain ⟨first, rest, hsplit⟩ := List.exists_cons_of_ne_nil (Text.split_ne_nil '/' root')
    rw [hsplit, List.cons_append, List.cons.injEq] at hseg
    obtain ⟨-, rfl, hrest⟩ := hseg
    rcases List.append_eq_singleton_iff.mp hrest with ⟨rfl, hlast⟩ | ⟨-, hlast⟩
    · rw [← Text.split_eq_singleton hroot] at hsplit
      rw [← Text.split_eq_singleton hname] at hlast
      exact ⟨Text.split_injective '/' hsplit, Text.split_injective '/' hlast⟩
    · exact absurd hlast (Text.split_ne_nil '/' name')
  · rintro ⟨rfl, rfl⟩
    rfl

/-- The parts of one bundle differ by name, whatever the names. -/
theorem contentKey_right_inj : contentKey root name = contentKey root name' ↔ name = name' := by
  rw [contentKey, contentKey, ← String.toList_inj, ← String.toList_inj]
  simp

theorem lockKey_right_inj {t t' : String} : lockKey root t = lockKey root t' ↔ t = t' := by
  rw [lockKey, lockKey, contentKey_right_inj, ← String.toList_inj, ← String.toList_inj]
  simp

theorem lockKey_inj (hroot : IsName root) {t t' : String} (ht : isPathSafe t = true) :
    lockKey root' t' = lockKey root t ↔ root' = root ∧ t' = t := by
  rw [lockKey, lockKey, contentKey_inj hroot.slash (isName_lock ht).slash]
  apply and_congr_right
  intro _
  rw [← String.toList_inj, ← String.toList_inj]
  simp

/-- How the keys of a bundle begin. -/
def rootStart (root : String) : String := bundleStart ++ root ++ "/"

theorem contentKey_eq (root name : String) : contentKey root name = rootStart root ++ name := rfl

theorem startsWith_rootStart (root name : String) :
    Text.startsWith (contentKey root name) (rootStart root) = true :=
  Text.startsWith_append _ _

theorem startsWith_bundleStart (root name : String) :
    Text.startsWith (contentKey root name) bundleStart = true := by
  refine Text.startsWith_iff.mpr ⟨root ++ "/" ++ name, String.toList_inj.mp ?_⟩
  simp [contentKey]

/-- A key tells the identifier of its bundle. -/
theorem rootOf?_contentKey (hroot : '/' ∉ root.toList) : rootOf? (contentKey root name) = some root := by
  have hrest : Text.dropStart? bundleStart (contentKey root name) = some (root ++ "/" ++ name) := by
    refine Text.dropStart?_eq_some_iff.mpr (String.toList_inj.mp ?_)
    simp [contentKey]
  have hsplit : Text.split '/' (root ++ "/" ++ name) = Text.split '/' root ++ Text.split '/' name :=
    Text.split_append '/' root name
  rw [rootOf?, hrest, Option.bind_some, hsplit, Text.split_eq_singleton hroot]
  rfl

/-- The keys of a bundle begin with its identifier and those of no other bundle do. -/
theorem startsWith_contentKey_iff (hroot : '/' ∉ root.toList) (hroot' : '/' ∉ root'.toList) :
    Text.startsWith (contentKey root name) (rootStart root') = true ↔ root' = root := by
  constructor
  · intro hstart
    obtain ⟨rest, heq⟩ := Text.startsWith_iff.mp hstart
    have hof : rootOf? (contentKey root name) = rootOf? (contentKey root' rest) := congrArg rootOf? heq
    rw [rootOf?_contentKey hroot, rootOf?_contentKey hroot'] at hof
    exact (Option.some.inj hof).symm
  · rintro rfl
    exact startsWith_rootStart _ _

/-! ## Content and locks -/

/-- The names of the objects of a bundle that are no locks. -/
def partNames : List String := ["title", "description", "description-html", "tags", "media"]

theorem map_fst_parts (c : PostContent) : (parts c).map (·.1) = partNames := rfl

theorem isName_part : ∀ name ∈ partNames, IsName name := by
  have hnames : ∀ name ∈ partNames, name ≠ "" ∧ '/' ∉ name.toList ∧ '\\' ∉ name.toList ∧
      name.toList.head? ≠ some '.' := by decide
  intro name hname
  obtain ⟨hne, hslash, hback, hdot⟩ := hnames name hname
  exact ⟨hne, hslash, hback, hdot⟩

theorem startsWith_lockStart_part : ∀ name ∈ partNames, Text.startsWith name lockStart = false := by
  decide

/-- No part of the content stands where a lock may stand. -/
theorem contentKey_ne_lockKey (hname : name ∈ partNames) (target : String) :
    contentKey root name ≠ lockKey root target := by
  intro heq
  have hlock := startsWith_lockStart_part name hname
  rw [contentKey_right_inj.mp heq, Text.startsWith_append] at hlock
  cases hlock

/-- Nor does it where another bundle may have a lock. -/
theorem lockKey_ne_contentKey (hroot : '/' ∉ root.toList) (hname : name ∈ partNames)
    (target : String) : lockKey root' target ≠ contentKey root name := by
  intro heq
  obtain ⟨rfl, -⟩ := (contentKey_inj hroot (isName_part name hname).slash).mp heq
  exact contentKey_ne_lockKey hname target heq.symm

end Syndication.Staging
