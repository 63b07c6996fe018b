import Mathlib.Data.List.Nodup
import Syndication.Proofs.Staging.Keys
import Syndication.Proofs.Store.Tree

/-!
# Proofs.Staging.Confined — no key leads out of the store

A key is a way: each of its segments is a step that a file system takes from a directory to the next. Such
a step may stay where it is or lead up, and a name with a slash would be a way of its own. The keys that
are accepted are those whose steps all lead down and whose last one is no unfinished file; so wherever the
root of the store is, the way of an accepted key ends strictly below it, and no two of them end at one
place. The keys of a bundle are accepted, and each is the key of one part of one bundle.

## Contents
* `enter`, `foldl_enter`                    — steps of a file system
* `IsConfined`, `isValidKey_iff`            — the ways of accepted keys
* `bundleKeys`, `isValidKey_bundleKeys`, `nodup_bundleKeys`, `eq_of_mem_bundleKeys`
* `keys_confined`
-/

namespace Syndication.Store

/-! ## Ways -/

/-- A step from a directory: nothing and a single dot stay, two dots lead up, a name leads down. -/
def enter (dir : Path) (name : String) : Path :=
  if name = "" ∨ name = "." then dir
  else if name = ".." then dir.dropLast
  else dir ++ [name]

/-- **A way on which every step leads down** ends below where it began, by as many names as it has. -/
theorem foldl_enter {p : Path} (h : ∀ name ∈ p, name ≠ "" ∧ name ≠ "." ∧ name ≠ "..") (root : Path) :
    p.foldl enter root = root ++ p := by
  induction p generalizing root with
  | nil => exact (List.append_nil root).symm
  | cons name p ih =>
    rw [List.forall_mem_cons] at h
    obtain ⟨⟨hempty, hdot, hdots⟩, hrest⟩ := h
    have hdown : enter root name = root ++ [name] := by
      unfold enter
      rw [if_neg (not_or.mpr ⟨hempty, hdot⟩), if_neg hdots]
    rw [List.foldl_cons, hdown, ih hrest, List.append_assoc]
    rfl

/-- **A way stays below where it begins**: there is a step, every step leads down, no name is a way of its
own, and the last name is not that of a file that is still being written. -/
structure IsConfined (p : Path) : Prop where
  proper : p ≠ []
  down : ∀ name ∈ p, name ≠ "" ∧ name ≠ "." ∧ name ≠ ".."
  single : ∀ name ∈ p, '/' ∉ name.toList ∧ '\\' ∉ name.toList
  finished : ∀ dir rest, p ≠ dir ++ [tempStart ++ rest]

namespace IsConfined

variable {p : Path}

/-- From any root, the way ends strictly below the root. -/
theorem below (h : IsConfined p) (root : Path) :
    p.foldl enter root = root ++ p ∧ root <+: p.foldl enter root ∧ p.foldl enter root ≠ root := by
  rw [foldl_enter h.down]
  refine ⟨rfl, List.prefix_append _ _, ?_⟩
  intro heq
  exact h.proper (by simpa using heq)

end IsConfined

theorem isPlainSegment_iff {name : String} :
    isPlainSegment name = true ↔ name ≠ "" ∧ name ≠ "." ∧ name ≠ ".." := by
  simp [isPlainSegment, and_assoc]

/-- The last name of a way is that of a file that is still being written. -/
theorem startsWith_getLast?_iff {p : Path} (hp : p ≠ []) :
    Text.startsWith (p.getLast?.getD "") tempStart = true ↔ ∃ dir rest, p = dir ++ [tempStart ++ rest] := by
  rw [List.getLast?_eq_some_getLast hp, Option.getD_some, Text.startsWith_iff]
  constructor
  · rintro ⟨rest, hlast⟩
    refine ⟨p.dropLast, rest, ?_⟩
    rw [← hlast, List.dropLast_concat_getLast hp]
  · rintro ⟨dir, rest, hsplit⟩
    refine ⟨rest, ?_⟩
    simp [hsplit]

/-- **The accepted keys** are those whose ways stay below the root. -/
theorem isValidKey_iff (key : String) : isValidKey key = true ↔ IsConfined (segments key) := by
  have hproper := Tree.segments_ne_nil key
  have hslash : ∀ name ∈ segments key, '/' ∉ name.toList := fun _ hname => Text.not_mem_of_mem_split hname
  have hback : '\\' ∈ key.toList ↔ ∃ name ∈ segments key, '\\' ∈ name.toList :=
    Text.mem_toList_iff (by decide)
  -- a segment has no slash as it is; a backslash is refused in the key, so in every segment
  unfold isValidKey
  simp only [Bool.and_eq_true, Bool.not_eq_true', List.all_eq_true, isPlainSegment_iff]
  constructor
  · rintro ⟨⟨hnone, hdown⟩, hfinished⟩
    refine ⟨hproper, hdown, fun name hname => ⟨hslash name hname, ?_⟩, ?_⟩
    · intro hmem
      have hkey := hback.mpr ⟨name, hname, hmem⟩
      simp [hkey] at hnone
    · intro dir rest hsplit
      have hstart := (startsWith_getLast?_iff hproper).mpr ⟨dir, rest, hsplit⟩
      rw [hstart] at hfinished
      cases hfinished
  · intro h
    refine ⟨⟨?_, h.down⟩, ?_⟩
    · rw [Bool.eq_false_iff]
      intro hkey
      obtain ⟨name, hname, hmem⟩ := hback.mp (by simpa using hkey)
      exact (h.single name hname).2 hmem
    · rw [Bool.eq_false_iff]
      intro hstart
      obtain ⟨dir, rest, hsplit⟩ := (startsWith_getLast?_iff hproper).mp hstart
      exact h.finished dir rest hsplit

namespace Tree

/-- The path of a key is the way of the key, if that stays below the root. -/
theorem pathFor_eq_ok_iff {key : String} {p : Path} :
    pathFor key = .ok p ↔ p = segments key ∧ IsConfined p := by
  rw [pathFor_eq]
  by_cases hvalid : isValidKey key = true
  · rw [if_pos hvalid, Except.ok.injEq]
    constructor
    · rintro rfl
      exact ⟨rfl, (isValidKey_iff key).mp hvalid⟩
    · rintro ⟨rfl, -⟩
      rfl
  · rw [if_neg hvalid]
    refine iff_of_false nofun ?_
    rintro ⟨rfl, hconfined⟩
    exact hvalid ((isValidKey_iff key).mpr hconfined)

end Tree
end Syndication.Store

namespace Syndication.Staging

open Store

/-! ## The keys of a bundle -/

/-- The keys of a bundle with one lock: that of the lock and those of the content. -/
def bundleKeys (root target : String) (content : PostContent) : List String :=
  lockKey root target :: (parts content).map fun part => contentKey root part.1

variable {root root' target target' key : String} {content content' : PostContent}

theorem bundleKeys_eq (root target : String) (content : PostContent) :
    bundleKeys root target content = ((lockStart ++ target) :: partNames).map (contentKey root) := by
  rw [List.map_cons, ← map_fst_parts content, List.map_map]
  rfl

/-- A key of a bundle is that of a part with a name of its own. -/
theorem exists_name_of_mem (htarget : isPathSafe target = true) (h : key ∈ bundleKeys root target content) :
    ∃ name, IsName name ∧ key = contentKey root name := by
  rw [bundleKeys_eq] at h
  obtain ⟨name, hname, rfl⟩ := List.mem_map.mp h
  refine ⟨name, ?_, rfl⟩
  rcases List.mem_cons.mp hname with rfl | hpart
  · exact isName_lock htarget
  · exact isName_part name hpart

theorem isValidKey_bundleKeys (hroot : IsName root) (htarget : isPathSafe target = true)
    (h : key ∈ bundleKeys root target content) : isValidKey key = true := by
  obtain ⟨name, hname, rfl⟩ := exists_name_of_mem htarget h
  exact isValidKey_contentKey hroot hname

/-- **The keys of a bundle differ**, since a lock has a name that no part of the content has. -/
theorem nodup_bundleKeys (root target : String) (content : PostContent) :
    (bundleKeys root target content).Nodup := by
  have hnames : ((lockStart ++ target) :: partNames).Nodup := by
    refine List.nodup_cons.mpr ⟨?_, by decide⟩
    intro hpart
    have hlock := startsWith_lockStart_part _ hpart
    rw [Text.startsWith_append] at hlock
    cases hlock
  rw [bundleKeys_eq]
  apply hnames.map
  intro name name' heq
  exact contentKey_right_inj.mp heq

/-- **A key belongs to one bundle.** -/
theorem eq_of_mem_bundleKeys (hroot : IsName root) (htarget : isPathSafe target = true)
    (h : key ∈ bundleKeys root target content) (h' : key ∈ bundleKeys root' target' content') :
    root' = root := by
  obtain ⟨name, hname, rfl⟩ := exists_name_of_mem htarget h
  rw [bundleKeys_eq] at h'
  obtain ⟨name', -, heq⟩ := List.mem_map.mp h'
  exact ((contentKey_inj hroot.slash hname.slash).mp heq).1

/-- **No key leads out of the store.** The path of a key is the way of its segments, and only a way that
stays below the root is accepted: from any root it leads to the root and its names, strictly below the
root. No other key has that path. The keys of a bundle under a fresh identifier are accepted, they differ,
and none is a key of a bundle under another one. -/
theorem keys_confined :
    (∀ key p, Tree.pathFor key = .ok p ↔ p = segments key ∧ IsConfined p) ∧
      (∀ key, ¬ IsConfined (segments key) → Tree.pathFor key = .error (.storage (.invalidKey key))) ∧
      (∀ key p root, Tree.pathFor key = .ok p → p.foldl enter root = root ++ p ∧
        root <+: p.foldl enter root ∧ p.foldl enter root ≠ root) ∧
      (∀ key key' p, Tree.pathFor key = .ok p → Tree.pathFor key' = .ok p → key = key') ∧
      ∀ (issuer : Issuer) (n : Nat) (target : String) (content : PostContent), isPathSafe target = true →
        (∀ key ∈ bundleKeys (issuer.idOf n) target content, ∃ p, Tree.pathFor key = .ok p) ∧
          (bundleKeys (issuer.idOf n) target content).Nodup ∧
          ∀ m ≠ n, ∀ target' content', ∀ key ∈ bundleKeys (issuer.idOf m) target' content',
            key ∉ bundleKeys (issuer.idOf n) target content := by
  refine ⟨fun key p => Tree.pathFor_eq_ok_iff, ?_, ?_, ?_, ?_⟩
  · intro key hescapes
    rw [Tree.pathFor_eq, if_neg (mt (isValidKey_iff key).mp hescapes)]
  · intro key p root hpath
    exact (Tree.pathFor_eq_ok_iff.mp hpath).2.below root
  · intro key key' p hpath hpath'
    obtain ⟨rfl, -⟩ := Tree.pathFor_eq_ok_iff.mp hpath
    exact Tree.segments_injective (Tree.pathFor_eq_ok_iff.mp hpath').1
  · intro issuer n target content htarget
    have hroot := isName_idOf issuer n
    refine ⟨?_, nodup_bundleKeys _ _ _, ?_⟩
    · intro key hkey
      have hvalid := isValidKey_bundleKeys hroot htarget hkey
      exact ⟨segments key, by rw [Tree.pathFor_eq, if_pos hvalid]⟩
    · intro m hne target' content' key hother hkey
      exact hne (issuer.idOf_injective (eq_of_mem_bundleKeys hroot htarget hkey hother))

/-- A target may be named like an unfinished file: its lock has a path below any root, and the keys of the
bundle are accepted and differ. -/
theorem keys_confined_unfinishedTarget :
    let issuer : Issuer := ⟨255, 0, 0, 0⟩
    let key := lockKey "ff" ".tmp-x"
    Tree.pathFor key = .ok ["post", "ff", "lock-.tmp-x"] ∧
      ["post", "ff", "lock-.tmp-x"].foldl enter ["srv", ".."] = ["srv", "..", "post", "ff", "lock-.tmp-x"] ∧
      isPathSafe ".tmp-x" = true ∧
      (∀ key ∈ bundleKeys (issuer.idOf 0) ".tmp-x" {}, ∃ p, Tree.pathFor key = .ok p) ∧
      (bundleKeys (issuer.idOf 0) ".tmp-x" {}).Nodup := by
  intro issuer key
  have hpath : Tree.pathFor key = .ok ["post", "ff", "lock-.tmp-x"] := by
    have hsegments : segments key = ["post", "ff", "lock-.tmp-x"] := by decide +kernel
    rw [Tree.pathFor_eq, if_pos (by decide +kernel), hsegments]
  have htarget : isPathSafe ".tmp-x" = true := by decide
  obtain ⟨-, -, hbelow, -, hbundle⟩ := keys_confined
  obtain ⟨haccepted, hdiffer, -⟩ := hbundle issuer 0 ".tmp-x" {} htarget
  exact ⟨hpath, (hbelow key _ ["srv", ".."] hpath).1, htarget, haccepted, hdiffer⟩

end Syndication.Staging
