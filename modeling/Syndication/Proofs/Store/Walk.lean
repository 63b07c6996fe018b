import Mathlib.Data.List.Nodup
import Syndication.Proofs.Store.Tree

/-!
# Proofs.Store.Walk — what a listing of a tree names

A listing walks down from a directory, and down to a directory only where keys that begin as asked may
stand. Nothing is missed by that: the key of a file that begins as asked is longer than the key of a
directory on its way, so one of the two texts begins with the other. What is left out are files with an
unfinished name on the way.

## Contents
* `IsFinished`                       — no unfinished name
* `leadsTo_of_startsWith`            — where keys may stand
* `IsSound.mem_walk`, `IsSound.nodup_walk` — what a walk finds, each file once
* `IsSound.mem_of_list`, `IsSound.list_complete` — listings
-/

namespace Syndication.Store.Tree

/-- No name is that of a file that is still being written. -/
def IsFinished (p : Path) : Prop := ∀ name ∈ p, Text.startsWith name tempStart = false

variable {t : Tree} {start k : String} {dir p : Path}

/-! ## Where keys may stand -/

theorem keyOf_append {d rest : Path} (hd : d ≠ []) (hrest : rest ≠ []) :
    keyOf (d ++ rest) = keyOf d ++ "/" ++ keyOf rest :=
  Text.joined_append "/" hd hrest

/-- On the way to a key that begins as asked, the walk is led to each directory. -/
theorem leadsTo_of_startsWith {d rest : Path} (hd : d ≠ []) (hrest : rest ≠ [])
    (h : Text.startsWith (keyOf (d ++ rest)) start = true) : leadsTo start d = true := by
  rw [leadsTo, Bool.or_eq_true, Text.startsWith_iff_prefix, Text.startsWith_iff_prefix]
  rw [Text.startsWith_iff_prefix, keyOf_append hd hrest, String.toList_append] at h
  have hslash : (keyOf d ++ "/").toList = (keyOf d).toList ++ ['/'] := by simp
  rcases List.prefix_or_prefix_of_prefix h (List.prefix_append _ _) with hshort | hlong
  · rw [hslash, List.prefix_concat_iff] at hshort
    rcases hshort with heq | hshort
    · have hsame : (keyOf d ++ "/").toList = start.toList := hslash.trans heq.symm
      exact .inr (hsame ▸ List.prefix_rfl)
    · exact .inl hshort
  · exact .inr hlong

/-! ## Walks -/

theorem mem_dirsIn {d : Path} : d ∈ t.dirsIn start dir ↔
    ∃ name, d = dir ++ [name] ∧ d ∈ t.dirs ∧ Text.startsWith name tempStart = false ∧
      leadsTo start d = true := by
  simp only [dirsIn, List.mem_filter, Bool.and_eq_true, Bool.not_eq_true', decide_eq_true_eq]
  constructor
  · rintro ⟨hmem, ⟨⟨hne, rfl⟩, hfinished⟩, hleads⟩
    have hne : d ≠ [] := by simpa using hne
    refine ⟨d.getLast hne, (List.dropLast_concat_getLast hne).symm, hmem, ?_, hleads⟩
    rwa [isUnfinished, List.getLast?_eq_some_getLast hne] at hfinished
  · rintro ⟨name, rfl, hmem, hfinished, hleads⟩
    exact ⟨hmem, ⟨⟨by simp, by simp⟩, by simpa [isUnfinished] using hfinished⟩, hleads⟩

theorem IsSound.mem_keysIn (h : t.IsSound) : k ∈ t.keysIn start dir ↔
    ∃ name, dir ++ [name] ∈ t.places ∧ Text.startsWith name tempStart = false ∧
      keyOf (dir ++ [name]) = k ∧ Text.startsWith k start = true := by
  simp only [keysIn, List.mem_filter, List.mem_map, Bool.and_eq_true, decide_eq_true_eq,
    Bool.not_eq_true']
  constructor
  · rintro ⟨⟨f, ⟨hf, rfl, hfinished⟩, rfl⟩, hstart⟩
    have hplace : f.1 ∈ t.places := List.mem_map_of_mem hf
    have hne := h.ne_nil hplace
    refine ⟨f.1.getLast hne, ?_, ?_, ?_, hstart⟩
    · rwa [List.dropLast_concat_getLast hne]
    · rwa [isUnfinished, List.getLast?_eq_some_getLast hne] at hfinished
    · rw [List.dropLast_concat_getLast hne]
  · rintro ⟨name, hplace, hfinished, rfl, hstart⟩
    obtain ⟨f, hf, heq⟩ := List.mem_map.mp hplace
    refine ⟨⟨f, ⟨hf, ?_, ?_⟩, by rw [heq]⟩, hstart⟩
    · rw [heq, List.dropLast_concat]
    · rw [heq]
      simpa [isUnfinished] using hfinished

/-- A walk names what is in its directory, and what walks further down name. -/
theorem walk_eq (t : Tree) (start : String) (dir : Path) :
    t.walk start dir = t.keysIn start dir ++ (t.dirsIn start dir).flatMap (t.walk start) := by
  rw [walk]
  congr 1
  exact congrArg List.flatten (List.attach_map_val (l := t.dirsIn start dir) (f := t.walk start))

/-- **What a walk finds**: the files below its directory whose keys begin as asked, without an unfinished
name on the way. By induction on the directories that it goes down to. -/
theorem IsSound.mem_walk (h : t.IsSound) (hdir : dir ∉ t.places) : k ∈ t.walk start dir ↔
    ∃ rest, dir ++ rest ∈ t.places ∧ IsFinished rest ∧ keyOf (dir ++ rest) = k ∧
      Text.startsWith k start = true := by
  induction dir using Tree.walk.induct t start with
  | case1 dir ih =>
  rw [walk_eq, List.mem_append, List.mem_flatMap, h.mem_keysIn]
  constructor
  · rintro (⟨name, hplace, hfinished, hkey, hstart⟩ | ⟨d, hd, hk⟩)
    · exact ⟨[name], hplace, by simpa [IsFinished] using hfinished, hkey, hstart⟩
    · obtain ⟨name, rfl, hmem, hfinished, -⟩ := mem_dirsIn.mp hd
      have hnot : dir ++ [name] ∉ t.places := fun hplace => h.notDir _ hplace hmem
      obtain ⟨rest, hplace, hrest, hkey, hstart⟩ := (ih _ hd hnot).mp hk
      rw [List.append_assoc, List.singleton_append] at hplace hkey
      exact ⟨name :: rest, hplace, List.forall_mem_cons.mpr ⟨hfinished, hrest⟩, hkey, hstart⟩
  · rintro ⟨rest, hplace, hfinished, hkey, hstart⟩
    cases rest with
    | nil => exact absurd (by simpa using hplace) hdir
    | cons name rest =>
      have hsplit : dir ++ name :: rest = dir ++ [name] ++ rest := by simp
      obtain ⟨hname, hrest⟩ := List.forall_mem_cons.mp hfinished
      by_cases hlast : rest = []
      · subst hlast
        exact .inl ⟨name, hplace, hname, hkey, hstart⟩
      · -- the file stands further down, and the next directory leads to it
        rw [hsplit] at hplace hkey
        have hmem : dir ++ [name] ∈ t.dirs :=
          h.way _ hplace _ (by simp) (List.prefix_append _ _) fun heq => hlast (by simpa using heq)
        have hleads : leadsTo start (dir ++ [name]) = true :=
          leadsTo_of_startsWith (by simp) hlast (hkey ▸ hstart)
        have hd := mem_dirsIn.mpr ⟨name, rfl, hmem, hname, hleads⟩
        refine .inr ⟨_, hd, (ih _ hd fun hfile => h.notDir _ hfile hmem).mpr ?_⟩
        exact ⟨rest, hplace, hrest, hkey, hstart⟩

/-- The path of a file is told by its key. -/
theorem IsSound.keyOf_inj (h : t.IsSound) {q : Path} (hp : p ∈ t.places) (hq : q ∈ t.places)
    (heq : keyOf p = keyOf q) : p = q := by
  obtain ⟨key, -, rfl⟩ := h.keys p hp
  obtain ⟨key', -, rfl⟩ := h.keys q hq
  rw [keyOf_segments, keyOf_segments] at heq
  rw [heq]

/-- No entry of a directory stands there twice. -/
structure IsNeat (t : Tree) : Prop where
  dirs : t.dirs.Nodup
  places : t.places.Nodup

/-- **A walk names each file once.** -/
theorem IsSound.nodup_walk (h : t.IsSound) (hneat : t.IsNeat) (hdir : dir ∉ t.places) :
    (t.walk start dir).Nodup := by
  have hnot : ∀ dir, ∀ d ∈ t.dirsIn start dir, d ∉ t.places := fun _ d hd hplace =>
    h.notDir d hplace (List.mem_filter.mp hd).1
  induction dir using Tree.walk.induct t start with
  | case1 dir ih =>
  rw [walk_eq, List.nodup_append, List.nodup_flatMap]
  refine ⟨?_, ⟨fun d hd => ih d hd (hnot dir d hd), ?_⟩, ?_⟩
  · refine List.Nodup.filter _ ?_
    have hfiles : ((t.files.filter fun f => f.1.dropLast = dir && !isUnfinished f.1).map (·.1)).Sublist
        t.places := List.filter_sublist.map _
    have hkeys := (hneat.places.sublist hfiles).map_on fun p hp q hq =>
      h.keyOf_inj (hfiles.subset hp) (hfiles.subset hq)
    rwa [List.map_map] at hkeys
  · -- what two directories lead to is told apart by their names
    refine (hneat.dirs.sublist List.filter_sublist).imp_of_mem ?_
    intro d d' hd hd' hne k hk hk'
    obtain ⟨rest, hplace, -, rfl, -⟩ := (h.mem_walk (hnot dir d hd)).mp hk
    obtain ⟨rest', hplace', -, hkey, -⟩ := (h.mem_walk (hnot dir d' hd')).mp hk'
    have hpath := h.keyOf_inj hplace hplace' hkey.symm
    have hlength := (length_of_mem_dirsIn hd).trans (length_of_mem_dirsIn hd').symm
    exact hne (List.append_inj_left hpath hlength)
  · -- and a file is no directory
    rintro k hk _ hbelow rfl
    obtain ⟨d, hd, hbelow⟩ := List.mem_flatMap.mp hbelow
    obtain ⟨name, hplace, -, rfl, -⟩ := h.mem_keysIn.mp hk
    obtain ⟨rest, hplace', -, hkey, -⟩ := (h.mem_walk (hnot dir d hd)).mp hbelow
    have hpath := h.keyOf_inj hplace hplace' hkey.symm
    have hlength : (dir ++ [name]).length = d.length := by
      rw [length_of_mem_dirsIn hd, List.length_append, List.length_singleton]
    have hway : d <+: dir ++ [name] := ⟨rest, hpath.symm⟩
    exact hnot dir d hd (hway.eq_of_length hlength.symm ▸ hplace)

/-! ## Listings -/

theorem directoryPart_slash (d : String) : directoryPart (d ++ "/") = d := by
  have hrev : (d ++ "/").toList.reverse = '/' :: d.toList.reverse := by simp
  rw [directoryPart, hrev]
  simp

theorem list_eq_listBelow (h : directoryPart start = "") : t.list start = t.listBelow start [] := by
  simp [list, h, pure, bind, Except.pure, Except.bind]

theorem list_eq_of_valid (hne : directoryPart start ≠ "") (hd : isValidKey (directoryPart start) = true) :
    t.list start = t.listBelow start (segments (directoryPart start)) := by
  simp [list, hne, pathFor_eq, hd, bind, Except.bind]

/-- No file stands where a directory is found. -/
theorem IsSound.not_place (h : t.IsSound) (hlook : t.look dir = .directory) : dir ∉ t.places := by
  intro hplace
  obtain ⟨data, hdata⟩ := Option.isSome_iff_exists.mp ((t.mem_places_iff dir).mp hplace)
  rw [(h.look_eq_file_iff dir data).mpr hdata] at hlook
  cases hlook

/-- What is listed below a directory. -/
theorem IsSound.mem_listBelow (h : t.IsSound) {keys : List String} (hlist : t.listBelow start dir = .ok keys) :
    k ∈ keys ↔ t.look dir = .directory ∧ ∃ rest, dir ++ rest ∈ t.places ∧ IsFinished rest ∧
      keyOf (dir ++ rest) = k ∧ Text.startsWith k start = true := by
  unfold listBelow at hlist
  split at hlist
  · rename_i hlook
    obtain rfl := Except.ok.inj hlist
    simp [hlook]
  · rename_i hlook
    obtain rfl := Except.ok.inj hlist
    rw [List.mem_mergeSort, h.mem_walk (h.not_place hlook), and_iff_right hlook]
  · cases hlist
  · cases hlist

/-- A listing that is answered is one below a directory. -/
theorem listBelow_of_list {keys : List String} (h : t.list start = .ok keys) : ∃ dir,
    t.listBelow start dir = .ok keys ∧
      (directoryPart start ≠ "" → dir = segments (directoryPart start)) := by
  by_cases hroot : directoryPart start = ""
  · exact ⟨[], list_eq_listBelow hroot ▸ h, fun hne => absurd hroot hne⟩
  by_cases hvalid : isValidKey (directoryPart start) = true
  · exact ⟨_, list_eq_of_valid hroot hvalid ▸ h, fun _ => rfl⟩
  · rw [list, if_neg (by simpa using hroot), pathFor_eq, if_neg hvalid] at h
    cases h

/-- A listing names objects that are there, under keys that begin as asked. -/
theorem IsSound.mem_of_list (h : t.IsSound) {keys : List String} (hlist : t.list start = .ok keys)
    (hk : k ∈ keys) :
    Text.startsWith k start = true ∧ (t.files.lookup (segments k)).isSome = true := by
  obtain ⟨dir, hbelow, -⟩ := listBelow_of_list hlist
  obtain ⟨-, rest, hplace, -, rfl, hstart⟩ := (h.mem_listBelow hbelow).mp hk
  obtain ⟨key, -, hkey⟩ := h.keys _ hplace
  refine ⟨hstart, ?_⟩
  rw [hkey, keyOf_segments]
  exact (t.mem_places_iff _).mp (hkey ▸ hplace)

/-- **A listing is complete.** Below a directory it names every object without an unfinished name on
the way. -/
theorem IsSound.list_complete (h : t.IsSound) {d rest : String} (hd : d ≠ "") {keys : List String}
    (hlist : t.list (d ++ "/") = .ok keys) (hrest : IsFinished (segments rest))
    (hfile : (t.files.lookup (segments (d ++ "/" ++ rest))).isSome = true) :
    d ++ "/" ++ rest ∈ keys := by
  have hpath : segments (d ++ "/" ++ rest) = segments d ++ segments rest := Text.split_append '/' d rest
  have hp := (t.mem_places_iff _).mpr hfile
  have hway : segments d <+: segments (d ++ "/" ++ rest) := hpath ▸ List.prefix_append _ _
  -- the object is reached through the directory, so the walk begins there
  have hdir : t.look (segments d) = .directory := by
    rw [look, h.hasNul hp hway]
    refine h.lookFrom_way hp [] (segments d) hway fun heq => segments_ne_nil rest ?_
    rw [List.nil_append, hpath] at heq
    simpa using heq
  obtain ⟨dir, hbelow, hdirEq⟩ := listBelow_of_list hlist
  rw [directoryPart_slash] at hdirEq
  obtain rfl := hdirEq hd
  refine (h.mem_listBelow hbelow).mpr ⟨hdir, segments rest, hpath ▸ hp, hrest, ?_, ?_⟩
  · rw [← hpath, keyOf_segments]
  · exact Text.startsWith_append _ _

end Syndication.Store.Tree
