import Syndication.Proofs.Store.Alike

/-!
# Proofs.Store.Agreement — files and memory give the same answers

The same calls are made of a store of files and of one in memory, with keys that the file system takes and
of which none is on the way to another. Then the tree mirrors the list: there is a file for each object,
and a directory only where a key needs it. Putting, reading and deleting give the same answers. A listing
differs in two cases. It fails if an object stands where its directory would have to, and it leaves out
objects with an unfinished name on their way. Where no listing meets one of them, the stores cannot be told
apart.

## Contents
* `Call`, `answers`                 — calls one after the other
* `Accepted`, `Space`, `Admits`     — keys that do not stand in each other's way
* `Mirrors`                         — a tree with the objects of a list
* `exec_onFlat`, `exec_onTree`      — one call
* `SeesAll`, `answers_agree_iff`    — runs
* `answers_agree_of_isFinished`     — keys that no listing meets
-/

namespace Syndication.ObjectStore.Agreement

open Store Store.Tree

/-! ## Calls -/

/-- A call of a store. -/
inductive Call where
  | put (key : String) (data : Bytes)
  | get (key : String)
  | delete (key : String)
  | list (start : String)

/-- What a call answers. -/
inductive Value where
  | done
  | object (found : Option Bytes)
  | removed (was : Bool)
  | keys (keys : List String)
  deriving DecidableEq, Repr

namespace Call

def run : Call → Effect ObjectStore Value
  | put key data => do
    ObjectStore.put key data
    return .done
  | get key => return .object (← ObjectStore.get key)
  | delete key => return .removed (← ObjectStore.delete key)
  | list start => return .keys (← ObjectStore.list start)

/-- The key of a call; a listing has none. -/
def key? : Call → Option String
  | put key _ | get key | delete key => some key
  | list _ => none

/-- What a call does to a list of objects, and what it answers. -/
def onFlat : Call → Flat → Value × Flat
  | put key data, f => (.done, f.put key data)
  | get key, f => (.object (f.get? key), f)
  | delete key, f => (.removed (f.delete key).1, (f.delete key).2)
  | list start, f => (.keys (f.list start), f)

end Call

/-- The answers to calls made one after the other, of which some may fail. -/
def answers : List Call → ObjectStore → List (Except Error Value)
  | [], _ => []
  | c :: rest, s => (c.run.exec s).1 :: answers rest (c.run.exec s).2

/-! ## Keys -/

/-- The file system takes the names. -/
def Named (key : String) : Prop :=
  ∀ name ∈ segments key, octets name ≤ maxName ∧ '\x00' ∉ name.toList

/-- A valid key with names that the file system takes, also the temporary name of its file. -/
structure Accepted (key : String) : Prop where
  valid : isValidKey key = true
  named : Named key
  temporary : octets ((segments key).getLast?.getD "") + tempOverhead ≤ maxName

/-- A text that a listing may begin with: one below a directory, or one without a directory. -/
inductive IsStart : String → Prop
  | inRoot (s : String) (hs : '/' ∉ s.toList) : IsStart s
  | below (d s : String) (valid : isValidKey d = true) (named : Named d) (hs : '/' ∉ s.toList) :
      IsStart (d ++ "/" ++ s)

/-- Keys that do not stand in each other's way. -/
structure Space (used : String → Prop) : Prop where
  accepted : ∀ k, used k → Accepted k
  apart : ∀ k rest, used k → ¬ used (k ++ "/" ++ rest)

/-- Calls with such keys. -/
structure Admits (calls : List Call) : Prop where
  space : Space fun k => ∃ c ∈ calls, c.key? = some k
  starts : ∀ start, .list start ∈ calls → IsStart start

/-- Names of such a key hold no NUL character. -/
theorem hasNul_of_named {key : String} (h : Named key) {p : Path} (hp : p ⊆ segments key) :
    hasNul p = false := by
  rw [hasNul, List.any_eq_false]
  intro name hname
  simpa using (h name (hp hname)).2

variable {used : String → Prop} {t t' : Tree} {f : Flat} {key k start : String} {data : Bytes}

namespace Space

/-- No key is on the way to another. -/
theorem eq_of_prefix (space : Space used) (hk : used k) (hkey : used key)
    (hway : segments k <+: segments key) : k = key := by
  obtain ⟨rest, hrest⟩ := hway
  by_cases hnil : rest = []
  · rw [hnil, List.append_nil] at hrest
    exact segments_injective hrest
  · have hsplit : key = k ++ "/" ++ keyOf rest := by
      rw [← keyOf_segments key, ← hrest, keyOf_append (segments_ne_nil k) hnil, keyOf_segments]
    exact absurd (hsplit ▸ hkey) (space.apart k _ hk)

end Space

/-! ## Trees and lists -/

/-- The tree holds the objects of the list, under keys that are used, and directories on the way to such
keys. -/
structure Mirrors (used : String → Prop) (t : Tree) (f : Flat) : Prop where
  sound : t.IsSound
  rooted : t.IsRooted
  neat : t.IsNeat
  ascending : f.IsAscending
  same : ∀ k, t.files.lookup (segments k) = f.get? k
  stored : ∀ k, (f.get? k).isSome = true → used k
  dirs : ∀ d ∈ t.dirs, ∃ k, used k ∧ d <+: segments k ∧ d ≠ segments k

theorem mirrors_empty (used : String → Prop) : Mirrors used {} {} where
  sound := isSound_empty
  rooted := isRooted_empty
  neat := ⟨List.nodup_nil, List.nodup_nil⟩
  ascending := Flat.isAscending_empty
  same := fun _ => rfl
  stored := fun _ hk => by cases hk
  dirs := fun _ hd => by cases hd

namespace Mirrors

theorem mem_places (h : Mirrors used t f) {p : Path} :
    p ∈ t.places ↔ ∃ k, (f.get? k).isSome = true ∧ p = segments k := by
  constructor
  · intro hp
    obtain ⟨key, -, rfl⟩ := h.sound.keys p hp
    exact ⟨key, h.same key ▸ (t.mem_places_iff _).mp hp, rfl⟩
  · rintro ⟨k, hk, rfl⟩
    exact (t.mem_places_iff _).mpr (h.same k ▸ hk)

/-- A file on the way to a path is an object under a key on the way to it. -/
theorem isBlocked_iff (h : Mirrors used t f) {way : Path} :
    t.isBlocked way = true ↔ ∃ k, (f.get? k).isSome = true ∧ segments k <+: way := by
  rw [Tree.isBlocked_iff]
  constructor
  · rintro ⟨p, hp, hway⟩
    obtain ⟨k, hk, rfl⟩ := h.mem_places.mp hp
    exact ⟨k, hk, hway⟩
  · rintro ⟨k, hk, hway⟩
    exact ⟨_, h.mem_places.mpr ⟨k, hk, rfl⟩, hway⟩

section Used

variable (space : Space used) (h : Mirrors used t f) (hkey : used key)
include space h hkey

/-- No directory stands at a key. -/
theorem not_dir : segments key ∉ t.dirs := by
  intro hd
  obtain ⟨k, hk, hway, hne⟩ := h.dirs _ hd
  exact hne (congrArg segments (space.eq_of_prefix hkey hk hway))

/-- No object stands on the way to a key. -/
theorem free : t.isBlocked (segments key).dropLast = false := by
  rw [Bool.eq_false_iff, Ne, h.isBlocked_iff]
  rintro ⟨k, hk, hway⟩
  obtain ⟨hway, hne⟩ := (prefix_dropLast_iff (segments_ne_nil key)).mp hway
  exact hne (congrArg segments (space.eq_of_prefix (h.stored k hk) hkey hway))

end Used

/-- What stands at a key is its object. -/
theorem look_eq (space : Space used) (h : Mirrors used t f) (hkey : used key) :
    t.look (segments key) = match f.get? key with
      | some data => .file data
      | none => .missing := by
  have hnamed := (space.accepted key hkey).named
  have hnul : hasNul (segments key) = false := hasNul_of_named hnamed (List.Subset.refl _)
  rw [Tree.look_eq h.rooted h.sound (segments_ne_nil key) fun name hname => (hnamed name hname).1, hnul]
  have hstanding : t.standing (segments key) = match t.files.lookup (segments key) with
      | some data => .file data
      | none => .missing := by
    have hfree : ¬ t.isBlocked (segments key).dropLast = true := by
      rw [h.free space hkey]
      exact Bool.false_ne_true
    exact (if_neg (h.not_dir space hkey)).trans (if_neg hfree)
  rw [if_neg Bool.false_ne_true, hstanding, h.same]

end Mirrors

/-! ## Neat trees -/

theorem nodup_makeDirs (hdirs : t.dirs.Nodup) (at' rest : Path) : (t.makeDirs at' rest).2.dirs.Nodup := by
  induction rest generalizing t at' with
  | nil => exact hdirs
  | cons name rest ih =>
    rw [makeDirs]
    split
    · exact hdirs
    split
    · exact ih hdirs _
    rename_i hnew
    split
    · exact hdirs
    · refine ih (List.nodup_append.mpr ⟨hdirs, List.nodup_singleton _, ?_⟩) _
      rintro d hd _ hhere rfl
      rw [List.mem_singleton.mp hhere] at hd
      exact hnew ((t.isDir_iff _).mpr (.inr hd))

/-- A put leaves the files as they are, or puts one in place of another. -/
theorem files_put (t : Tree) (key : String) (data : Bytes) : (t.put key data).2.files = t.files ∨
    (t.put key data).2.files = t.files.filter (·.1 ≠ segments key) ++ [(segments key, data)] := by
  have hwritten := t.written_put key data
  generalize (t.put key data).1 = answer, (t.put key data).2 = t' at hwritten ⊢
  cases hwritten with
  | refused cause => exact .inl rfl
  | failed cause made => exact .inl (makeDirs_spec made).1
  | placed valid made named fits free => exact .inr (by rw [writeFile, (makeDirs_spec made).1])

theorem neat_put (h : t.IsNeat) (key : String) (data : Bytes) : (t.put key data).2.IsNeat where
  dirs := by
    rcases t.dirs_put key data with heq | heq <;> rw [heq]
    · exact h.dirs
    · exact nodup_makeDirs h.dirs _ _
  places := by
    rcases files_put t key data with heq | heq <;> rw [places, heq]
    · exact h.places
    · rw [List.map_append, List.nodup_append]
      refine ⟨h.places.sublist (List.filter_sublist.map _), List.nodup_singleton _, ?_⟩
      rintro p hp _ hlast rfl
      obtain ⟨e, he, rfl⟩ := List.mem_map.mp hp
      have hne := (List.mem_filter.mp he).2
      simp [List.mem_singleton.mp hlast] at hne

theorem dirs_prune_sublist (t : Tree) (p : Path) (levels : Nat) :
    (t.prune p levels).dirs.Sublist t.dirs := by
  induction levels generalizing t p with
  | zero => exact .refl _
  | succ levels ih =>
    unfold prune
    split
    · exact .refl _
    · exact (ih _ _).trans List.filter_sublist

/-- A deletion adds nothing. -/
theorem delete_sublist (h : t.IsSound) (key : String) :
    (t.delete key).2.dirs.Sublist t.dirs ∧ (t.delete key).2.files.Sublist t.files := by
  by_cases hkey : isValidKey key = true
  case neg =>
    rw [Tree.delete, pathFor_eq, if_neg hkey]
    exact ⟨.refl _, .refl _⟩
  rw [delete_eq hkey]
  split
  · exact ⟨.refl _, .refl _⟩
  · refine ⟨dirs_prune_sublist _ _ _, ?_⟩
    rw [(prune_spec (h.withoutFile (segments key)) _ _).2]
    exact List.filter_sublist
  · exact ⟨.refl _, .refl _⟩
  · exact ⟨.refl _, .refl _⟩

theorem neat_delete (hneat : t.IsNeat) (h : t.IsSound) (key : String) : (t.delete key).2.IsNeat where
  dirs := hneat.dirs.sublist (delete_sublist h key).1
  places := hneat.places.sublist ((delete_sublist h key).2.map _)

/-! ## One call -/

section Step

variable (space : Space used) (h : Mirrors used t f) (hkey : used key)
include space h hkey

theorem get_onTree : t.get key = .ok (f.get? key) := by
  rw [Store.Tree.get, pathFor_eq, if_pos (space.accepted key hkey).valid]
  simp only [bind, Except.bind, h.look_eq space hkey]
  cases f.get? key <;> rfl

theorem fst_put_onTree (data : Bytes) : (t.put key data).1 = .ok () := by
  obtain ⟨hvalid, hnamed, htemporary⟩ := space.accepted key hkey
  have hlast : (segments key).getLast?.getD "" ∈ segments key := by
    rw [List.getLast?_eq_some_getLast (segments_ne_nil key), Option.getD_some]
    exact List.getLast_mem _
  have hwayNul : hasNul (segments key).dropLast = false :=
    hasNul_of_named hnamed (List.dropLast_subset _)
  have hlastNul : hasNul [(segments key).getLast?.getD ""] = false :=
    hasNul_of_named hnamed (List.cons_subset.mpr ⟨hlast, List.nil_subset _⟩)
  have hmake : (t.makeDirs [] (segments key).dropLast).1 = .ok () := by
    rw [fst_makeDirs h.rooted h.sound rfl fun name hname => (hnamed name (List.dropLast_subset _ hname)).1,
      List.nil_append, h.free space hkey]
    rfl
  have hplace : (t.makeDirs [] (segments key).dropLast).2.isDir (segments key) = false := by
    rw [isDir_makeDirs, Bool.eq_false_iff, Ne, isDir_iff]
    exact fun hdir => hdir.elim (segments_ne_nil key) (h.not_dir space hkey)
  rw [put_eq hvalid, hwayNul]
  rcases hmade : t.makeDirs [] (segments key).dropLast with ⟨e | ⟨⟩, u⟩
  · rw [hmade] at hmake
    cases hmake
  · rw [hmade] at hplace
    have hplace : u.isDir (segments key) = false := hplace
    simp only [placeFile, hlastNul, hplace, Nat.not_lt.mpr htemporary, Bool.false_eq_true, if_false]

/-- **A put** of files does what it does in memory. -/
theorem put_onTree (data : Bytes) :
    (t.put key data).1 = .ok () ∧ Mirrors used (t.put key data).2 (f.put key data) := by
  have hanswer := fst_put_onTree space h hkey data
  refine ⟨hanswer, ?_⟩
  obtain ⟨hsound, ⟨-, hfiles⟩ | ⟨⟨e, herror⟩, -⟩⟩ := h.sound.put_spec (Prod.eta (t.put key data)).symm
  case inr =>
    rw [hanswer] at herror
    cases herror
  exact {
    sound := hsound
    rooted := h.rooted.put key data
    neat := neat_put h.neat key data
    ascending := h.ascending.put key data
    same := fun k => by simp only [hfiles, Flat.get?_put, segments_injective.eq_iff, h.same]
    stored := by
      intro k hk
      rw [Flat.get?_put] at hk
      split at hk
      · rename_i heq
        exact heq ▸ hkey
      · exact h.stored k hk
    dirs := by
      intro d hd
      rcases t.dirs_put key data with heq | heq <;> rw [heq] at hd
      · exact h.dirs d hd
      · rcases makeDirs_new (Prod.eta _).symm d hd with hold | hnew
        · exact h.dirs d hold
        · exact ⟨key, hkey, (prefix_dropLast_iff (segments_ne_nil key)).mp hnew⟩ }

/-- **A deletion** of files does what it does in memory. -/
theorem delete_onTree : (t.delete key).1 = .ok (f.delete key).1 ∧
    Mirrors used (t.delete key).2 (f.delete key).2 := by
  have hanswer : (t.delete key).1 = .ok (f.delete key).1 := by
    rw [delete_eq (space.accepted key hkey).valid, h.look_eq space hkey, Flat.delete_fst]
    cases f.get? key <;> rfl
  obtain ⟨hsound, hfiles, -⟩ := h.sound.delete_spec (Prod.eta (t.delete key)).symm
  refine ⟨hanswer, ?_⟩
  exact {
    sound := hsound
    rooted := h.rooted.delete key
    neat := neat_delete h.neat h.sound key
    ascending := h.ascending.delete key
    same := fun k => by simp only [hfiles, Flat.get?_delete, segments_injective.eq_iff, h.same]
    stored := by
      intro k hk
      rw [Flat.get?_delete] at hk
      split at hk
      · cases hk
      · exact h.stored k hk
    dirs := fun d hd => h.dirs d ((delete_sublist h.sound key).1.subset hd) }

end Step

/-! ## Listings -/

/-- The directory that a listing begins at. -/
def dirOf (start : String) : Path :=
  if directoryPart start = "" then [] else segments (directoryPart start)

/-- There is no unfinished name between that directory and the object under a key. -/
def isSeen (start k : String) : Bool :=
  ((segments k).drop (dirOf start).length).all fun name => !Text.startsWith name tempStart

theorem isSeen_append {rest : Path} (h : segments k = dirOf start ++ rest) :
    isSeen start k = true ↔ IsFinished rest := by
  rw [isSeen, h, List.drop_left, List.all_eq_true, IsFinished]
  simp only [Bool.not_eq_true']

theorem dropWhile_reverse {cs : List Char} (hcs : '/' ∉ cs) (rest : List Char) :
    (cs.reverse ++ rest).dropWhile (· ≠ '/') = rest.dropWhile (· ≠ '/') := by
  refine List.dropWhile_append_of_pos fun c hc => ?_
  simpa using fun heq : c = '/' => hcs (heq ▸ List.mem_reverse.mp hc)

theorem dirOf_inRoot {s : String} (hs : '/' ∉ s.toList) : dirOf s = [] := by
  have hpart : directoryPart s = "" := by
    rw [directoryPart, ← List.append_nil s.toList.reverse, dropWhile_reverse hs]
    rfl
  rw [dirOf, if_pos hpart]

theorem directoryPart_below (d : String) {s : String} (hs : '/' ∉ s.toList) :
    directoryPart (d ++ "/" ++ s) = d := by
  have hlist : (d ++ "/" ++ s).toList.reverse = s.toList.reverse ++ '/' :: d.toList.reverse := by simp
  rw [directoryPart, hlist, dropWhile_reverse hs]
  simp

theorem dirOf_below {d s : String} (valid : isValidKey d = true) (hs : '/' ∉ s.toList) :
    dirOf (d ++ "/" ++ s) = segments d := by
  have hd : d ≠ "" := by
    rintro rfl
    exact absurd valid (by decide)
  rw [dirOf, directoryPart_below d hs, if_neg hd]

namespace IsStart

/-- A key that begins as asked stands below the directory. -/
theorem exists_rest (hstart : IsStart start) (h : Text.startsWith k start = true) :
    ∃ rest, rest ≠ [] ∧ segments k = dirOf start ++ rest := by
  cases hstart with
  | inRoot s hs => exact ⟨segments k, segments_ne_nil k, by rw [dirOf_inRoot hs, List.nil_append]⟩
  | below d s valid named hs =>
    obtain ⟨behind, rfl⟩ := Text.startsWith_iff.mp h
    refine ⟨segments (s ++ behind), segments_ne_nil _, ?_⟩
    rw [dirOf_below valid hs, String.append_assoc]
    exact Text.split_append '/' d (s ++ behind)

theorem list_eq (hstart : IsStart start) : t.list start = t.listBelow start (dirOf start) := by
  cases hstart with
  | inRoot s hs =>
    have hroot : directoryPart start = "" := by
      by_contra hne
      exact segments_ne_nil _ ((if_neg hne).symm.trans (dirOf_inRoot hs))
    rw [list_eq_listBelow hroot, dirOf_inRoot hs]
  | below d s valid named hs =>
    have hpart := directoryPart_below d hs
    have hne : directoryPart (d ++ "/" ++ s) ≠ "" := by
      rw [hpart]
      rintro rfl
      exact absurd valid (by decide)
    have hvalid : isValidKey (directoryPart (d ++ "/" ++ s)) = true := by rw [hpart, valid]
    rw [list_eq_of_valid hne hvalid, dirOf, if_neg hne]

/-- What stands where a listing begins. -/
theorem look_eq (hstart : IsStart start) (h : Mirrors used t f) :
    t.look (dirOf start) = if t.isDir (dirOf start) then .directory else t.standing (dirOf start) := by
  cases hstart with
  | inRoot s hs =>
    rw [dirOf_inRoot hs]
    rfl
  | below d s valid named hs =>
    rw [dirOf_below valid hs, Tree.look_eq h.rooted h.sound (segments_ne_nil d)
      fun name hname => (named name hname).1, hasNul_of_named named (List.Subset.refl _), if_neg Bool.false_ne_true]
    split
    · rename_i hdir
      rw [standing, if_pos (((t.isDir_iff _).mp hdir).resolve_left (segments_ne_nil d))]
    · rfl

end IsStart

/-- Objects on the way of a listing, or where its directory would have to be. -/
def isStopped (f : Flat) (start : String) : Bool :=
  f.entries.any fun e => (segments e.1).isPrefixOf (dirOf start)

theorem isStopped_iff : isStopped f start = true ↔
    ∃ k, (f.get? k).isSome = true ∧ segments k <+: dirOf start := by
  simp only [isStopped, List.any_eq_true, List.isPrefixOf_iff_prefix, Flat.get?, isSome_lookup_iff,
    List.mem_map]
  constructor
  · rintro ⟨e, he, hway⟩
    exact ⟨e.1, ⟨e, he, rfl⟩, hway⟩
  · rintro ⟨_, ⟨e, he, rfl⟩, hway⟩
    exact ⟨e, he, hway⟩

/-- A walk names the objects that it can see. -/
theorem mem_walk_dirOf (hstart : IsStart start) (h : Mirrors used t f) (hdir : dirOf start ∉ t.places) :
    k ∈ t.walk start (dirOf start) ↔ k ∈ (f.list start).filter (isSeen start) := by
  rw [h.sound.mem_walk hdir, List.mem_filter, Flat.mem_list]
  constructor
  · rintro ⟨rest, hplace, hfinished, hkey, hk⟩
    obtain ⟨key, hsome, hpath⟩ := h.mem_places.mp hplace
    rw [hpath, keyOf_segments] at hkey
    exact ⟨⟨hkey ▸ hsome, hk⟩, (isSeen_append (hkey ▸ hpath.symm)).mpr hfinished⟩
  · rintro ⟨⟨hsome, hk⟩, hseen⟩
    obtain ⟨rest, -, hpath⟩ := hstart.exists_rest hk
    refine ⟨rest, hpath ▸ h.mem_places.mpr ⟨k, hsome, rfl⟩, (isSeen_append hpath).mp hseen, ?_, hk⟩
    rw [← hpath, keyOf_segments]

/-- What a walk names, put in order, is what a list in memory has in order. -/
theorem mergeSort_walk (hstart : IsStart start) (h : Mirrors used t f) (hdir : dirOf start ∉ t.places) :
    (t.walk start (dirOf start)).mergeSort (· ≤ ·) = (f.list start).filter (isSeen start) := by
  have hascending := (h.ascending.list start).sublist (List.filter_sublist (p := isSeen start))
  have hnodup : ((f.list start).filter (isSeen start)).Nodup := hascending.imp fun hlt => ne_of_lt hlt
  have hperm : (t.walk start (dirOf start)).Perm ((f.list start).filter (isSeen start)) :=
    (List.perm_ext_iff_of_nodup (h.sound.nodup_walk h.neat hdir) hnodup).mpr fun _ =>
      mem_walk_dirOf hstart h hdir
  have hsorted : ((t.walk start (dirOf start)).mergeSort (· ≤ ·)).Pairwise (· ≤ ·) := by
    have htrans : ∀ a b c : String, decide (a ≤ b) = true → decide (b ≤ c) = true → decide (a ≤ c) = true := by
      simp only [decide_eq_true_eq]
      exact fun _ _ _ => le_trans
    refine (List.pairwise_mergeSort htrans (fun a b => ?_) _).imp of_decide_eq_true
    simpa using le_total a b
  exact ((List.mergeSort_perm _ _).trans hperm).eq_of_pairwise (fun _ _ _ _ => le_antisymm) hsorted
    (hascending.imp fun hlt => le_of_lt hlt)

/-- Where no directory is, a listing is stopped or there is nothing to name. -/
theorem standing_dirOf (hstart : IsStart start) (h : Mirrors used t f) (hdir : t.isDir (dirOf start) ≠ true) :
    (isStopped f start = true → t.standing (dirOf start) = .failed "not a directory" ∨
        ∃ data, t.standing (dirOf start) = .file data) ∧
      (isStopped f start = false → t.standing (dirOf start) = .missing ∧ f.list start = []) := by
  rw [Ne, isDir_iff, not_or] at hdir
  obtain ⟨hne, hdir⟩ := hdir
  rw [standing, if_neg hdir]
  constructor
  · intro hstopped
    by_cases hblocked : t.isBlocked (dirOf start).dropLast = true
    · exact .inl (if_pos hblocked)
    obtain ⟨k, hk, hway⟩ := isStopped_iff.mp hstopped
    -- the object stands in the place of the directory
    have hplace : segments k = dirOf start := by
      by_contra hproper
      exact hblocked (h.isBlocked_iff.mpr ⟨k, hk, (prefix_dropLast_iff hne).mpr ⟨hway, hproper⟩⟩)
    obtain ⟨data, hdata⟩ := Option.isSome_iff_exists.mp hk
    exact .inr ⟨data, by rw [if_neg hblocked, ← hplace, h.same, hdata]⟩
  · intro hfree
    rw [Bool.eq_false_iff, Ne, isStopped_iff] at hfree
    have hblocked : ¬ t.isBlocked (dirOf start).dropLast = true := by
      rw [h.isBlocked_iff]
      rintro ⟨k, hk, hway⟩
      exact hfree ⟨k, hk, hway.trans (List.dropLast_prefix _)⟩
    have hnone : t.files.lookup (dirOf start) = none := by
      rw [← Option.not_isSome_iff_eq_none, ← mem_places_iff, h.mem_places]
      rintro ⟨k, hk, hplace⟩
      exact hfree ⟨k, hk, hplace ▸ List.prefix_refl _⟩
    refine ⟨by rw [if_neg hblocked, hnone], List.eq_nil_iff_forall_not_mem.mpr fun k hk => ?_⟩
    obtain ⟨hsome, hbegins⟩ := (f.mem_list start k).mp hk
    obtain ⟨rest, hrest, hpath⟩ := hstart.exists_rest hbegins
    -- the directory would be on the way to an object
    refine hdir (h.sound.way _ (h.mem_places.mpr ⟨k, hsome, rfl⟩) _ hne (hpath ▸ List.prefix_append _ _) ?_)
    rw [hpath]
    simpa using hrest

/-- **A listing** of files names, in order, the objects that it can see, unless it is stopped. -/
theorem list_onTree (hstart : IsStart start) (h : Mirrors used t f) :
    t.list start = if isStopped f start then .error (failure "not a directory")
      else .ok ((f.list start).filter (isSeen start)) := by
  rw [hstart.list_eq, listBelow, hstart.look_eq h]
  by_cases hdir : t.isDir (dirOf start) = true
  · -- the walk begins at a directory, on whose way there is no object
    have hplace : dirOf start ∉ t.places := fun hplace =>
      h.rooted.not_file h.sound hplace hdir (List.prefix_refl _)
    have hfree : isStopped f start = false := by
      rw [Bool.eq_false_iff, Ne, isStopped_iff, ← h.isBlocked_iff,
        h.rooted.isBlocked_of_dir h.sound hdir]
      exact Bool.false_ne_true
    rw [if_pos hdir, hfree]
    exact congrArg Except.ok (mergeSort_walk hstart h hplace)
  · obtain ⟨hstopped, hfree⟩ := standing_dirOf hstart h hdir
    rw [if_neg hdir]
    cases hstop : isStopped f start with
    | true =>
      rcases hstopped hstop with hlook | ⟨data, hlook⟩ <;> rw [hlook] <;> rfl
    | false =>
      obtain ⟨hlook, hnil⟩ := hfree hstop
      rw [hlook, hnil]
      rfl

/-! ## Runs -/

namespace Call

/-- What a store of files answers, told by the objects that it holds. -/
def told : Call → Flat → Except Error Value
  | list start, f =>
    if isStopped f start then .error (failure "not a directory")
    else .ok (.keys ((f.list start).filter (isSeen start)))
  | c, f => .ok (c.onFlat f).1

/-- A listing is not stopped, and sees every object whose key begins as asked. -/
def SeesAll : Call → Flat → Prop
  | list start, f => isStopped f start = false ∧ ∀ k ∈ f.list start, isSeen start k = true
  | _, _ => True

variable {c : Call}

theorem told_eq_iff : c.told f = .ok (c.onFlat f).1 ↔ c.SeesAll f := by
  cases c with
  | put key data => exact iff_of_true rfl trivial
  | get key => exact iff_of_true rfl trivial
  | delete key => exact iff_of_true rfl trivial
  | list start =>
    rw [told, SeesAll]
    cases isStopped f start with
    | true => simp
    | false => simp [onFlat, List.filter_eq_self]

/-- A call of a store in memory. -/
theorem exec_onFlat (hkey : ∀ k, c.key? = some k → isValidKey k = true) (f : Flat) :
    c.run.exec ⟨.memory f, {}⟩ = (.ok (c.onFlat f).1, ⟨.memory (c.onFlat f).2, {}⟩) := by
  cases c with
  | put key data => simp [run, onFlat, ObjectStore.put, validateKey, hkey key rfl]
  | get key => simp [run, onFlat, ObjectStore.get, validateKey, hkey key rfl]
  | delete key => simp [run, onFlat, ObjectStore.delete, validateKey, hkey key rfl]
  | list start => simp [run, onFlat, ObjectStore.list]

/-- **A call of a store of files** leaves the tree a mirror, and answers what the list tells. -/
theorem exec_onTree (space : Space used) (h : Mirrors used t f)
    (hkey : ∀ k, c.key? = some k → used k) (hstart : ∀ start, c = .list start → IsStart start) :
    ∃ t', c.run.exec ⟨.files t, {}⟩ = (c.told f, ⟨.files t', {}⟩) ∧ Mirrors used t' (c.onFlat f).2 := by
  cases c with
  | put key data =>
    obtain ⟨hanswer, hmirrors⟩ := put_onTree space h (hkey key rfl) data
    exact ⟨_, by simp [run, told, onFlat, ObjectStore.put, hanswer], hmirrors⟩
  | get key =>
    have hanswer := get_onTree space h (hkey key rfl)
    exact ⟨t, by simp [run, told, onFlat, ObjectStore.get, hanswer], h⟩
  | delete key =>
    obtain ⟨hanswer, hmirrors⟩ := delete_onTree space h (hkey key rfl)
    exact ⟨_, by simp [run, told, onFlat, ObjectStore.delete, hanswer], hmirrors⟩
  | list start =>
    have hanswer := list_onTree (hstart start rfl) h
    refine ⟨t, ?_, h⟩
    cases hstop : isStopped f start <;>
      simp [run, told, ObjectStore.list, hanswer, hstop]

/-- What is stored was stored before, or is put. -/
theorem stored_onFlat (hk : ((c.onFlat f).2.get? k).isSome = true) :
    (f.get? k).isSome = true ∨ ∃ data, c = .put k data := by
  cases c with
  | put key data =>
    rw [onFlat, Flat.get?_put] at hk
    split at hk
    · rename_i heq
      exact .inr ⟨data, heq ▸ rfl⟩
    · exact .inl hk
  | delete key =>
    rw [onFlat, Flat.get?_delete] at hk
    split at hk
    · cases hk
    · exact .inl hk
  | get key => exact .inl hk
  | list start => exact .inl hk

end Call

/-- No listing of a run is stopped, and each sees all. -/
def SeeAll : List Call → Flat → Prop
  | [], _ => True
  | c :: rest, f => c.SeesAll f ∧ SeeAll rest (c.onFlat f).2

/-- A run from stores of which one mirrors the other. By induction on the calls. -/
theorem answers_eq_iff (space : Space used) (h : Mirrors used t f) (calls : List Call)
    (hkeys : ∀ c ∈ calls, ∀ k, c.key? = some k → used k)
    (hstarts : ∀ start, .list start ∈ calls → IsStart start) :
    answers calls ⟨.files t, {}⟩ = answers calls ⟨.memory f, {}⟩ ↔ SeeAll calls f := by
  induction calls generalizing t f with
  | nil => exact iff_of_true rfl trivial
  | cons c rest ih =>
    have hkey := hkeys c List.mem_cons_self
    obtain ⟨t', htree, hmirrors⟩ := Call.exec_onTree space h hkey fun start heq =>
      hstarts start (heq ▸ List.mem_cons_self)
    have hflat := Call.exec_onFlat (fun k hk => (space.accepted k (hkey k hk)).valid) f
    rw [answers, answers, htree, hflat, List.cons_eq_cons, Call.told_eq_iff, SeeAll,
      ih hmirrors (fun c hc => hkeys c (List.mem_cons_of_mem _ hc))
        fun start hmem => hstarts start (List.mem_cons_of_mem _ hmem)]

/-- **Files and memory give the same answers** to the same calls, from empty stores on, exactly if no
listing is stopped and each sees all. -/
theorem answers_agree_iff (calls : List Call) (h : Admits calls) :
    answers calls .onFiles = answers calls .inMemory ↔ SeeAll calls {} :=
  answers_eq_iff h.space (mirrors_empty _) calls (fun c hc _ hk => ⟨c, hc, hk⟩) h.starts

/-! ### Plain keys -/

theorem isSeen_of_isFinished (h : IsFinished (segments k)) (start : String) : isSeen start k = true := by
  rw [isSeen, List.all_eq_true]
  intro name hname
  rw [h name (List.mem_of_mem_drop hname)]
  rfl

/-- Each listing sees all where no key has an unfinished name and none is in a listing's way. By induction on
the calls: what is stored later is stored now or put. -/
theorem seeAll_of_isFinished (calls : List Call)
    (hplain : ∀ k, (f.get? k).isSome = true ∨ (∃ data, .put k data ∈ calls) →
      IsFinished (segments k) ∧ ∀ start, .list start ∈ calls → ¬ segments k <+: dirOf start) :
    SeeAll calls f := by
  induction calls generalizing f with
  | nil => trivial
  | cons c rest ih =>
    refine ⟨?_, ih fun k hk => ?_⟩
    · cases c with
      | list start =>
        constructor
        · rw [Bool.eq_false_iff, Ne, isStopped_iff]
          rintro ⟨k, hsome, hway⟩
          exact (hplain k (.inl hsome)).2 start List.mem_cons_self hway
        · intro k hk
          exact isSeen_of_isFinished (hplain k (.inl ((f.mem_list start k).mp hk).1)).1 start
      | put key data => trivial
      | get key => trivial
      | delete key => trivial
    · have hnow : (f.get? k).isSome = true ∨ ∃ data, .put k data ∈ c :: rest := by
        rcases hk with hstored | ⟨data, hput⟩
        · exact (Call.stored_onFlat hstored).imp_right fun ⟨data, heq⟩ => ⟨data, heq ▸ List.mem_cons_self⟩
        · exact .inr ⟨data, List.mem_cons_of_mem _ hput⟩
      obtain ⟨hfinished, hfree⟩ := hplain k hnow
      exact ⟨hfinished, fun start hmem => hfree start (List.mem_cons_of_mem _ hmem)⟩

/-- **Plain keys.** The answers are the same if no object is put under a key with an unfinished name, or where
a listing has its directory or a way to it. -/
theorem answers_agree_of_isFinished (calls : List Call) (h : Admits calls)
    (hplain : ∀ key data, .put key data ∈ calls →
      IsFinished (segments key) ∧ ∀ start, .list start ∈ calls → ¬ segments key <+: dirOf start) :
    answers calls .onFiles = answers calls .inMemory := by
  refine (answers_eq_iff h.space (mirrors_empty _) calls (fun c hc _ hk => ⟨c, hc, hk⟩) h.starts).mpr ?_
  refine seeAll_of_isFinished calls fun k hk => ?_
  rcases hk with hsome | ⟨data, hput⟩
  · cases hsome
  · exact hplain k data hput

/-! ### One object and one listing -/

instance : (c : Call) → (f : Flat) → Decidable (c.SeesAll f)
  | .list start, f =>
    inferInstanceAs (Decidable (isStopped f start = false ∧ ∀ k ∈ f.list start, isSeen start k = true))
  | .put _ _, _ | .get _, _ | .delete _, _ => isTrue trivial

instance decidableSeeAll : (calls : List Call) → (f : Flat) → Decidable (SeeAll calls f)
  | [], _ => isTrue trivial
  | c :: rest, f =>
    have := decidableSeeAll rest (c.onFlat f).2
    inferInstanceAs (Decidable (c.SeesAll f ∧ SeeAll rest (c.onFlat f).2))

/-- An object is put, and then there is a listing. -/
def putThenList (key start : String) : List Call := [.put key [0x68], .list start]

theorem admits_putThenList (hkey : Accepted key) (hstart : IsStart start) :
    Admits (putThenList key start) := by
  have hused : ∀ k, (∃ c ∈ putThenList key start, c.key? = some k) → k = key := by
    simp [putThenList, Call.key?, eq_comm]
  constructor
  case space =>
    constructor
    case accepted => exact fun k hk => hused k hk ▸ hkey
    case apart =>
      intro k rest hk hlonger
      have hlength := congrArg String.length ((hused _ hlonger).trans (hused k hk).symm)
      simp only [String.length_append] at hlength
      have : "/".length = 1 := rfl
      omega
  case starts =>
    intro start' hmem
    have hsame : start' = start := by simpa [putThenList] using hmem
    exact hsame ▸ hstart

instance : Decidable (Named key) :=
  inferInstanceAs (Decidable (∀ name ∈ segments key, octets name ≤ maxName ∧ '\x00' ∉ name.toList))

instance : Decidable (Accepted key) :=
  decidable_of_iff (isValidKey key = true ∧ Named key ∧
    octets ((segments key).getLast?.getD "") + tempOverhead ≤ maxName)
    ⟨fun ⟨hvalid, hnamed, htemporary⟩ => ⟨hvalid, hnamed, htemporary⟩,
      fun ⟨hvalid, hnamed, htemporary⟩ => ⟨hvalid, hnamed, htemporary⟩⟩

/-- A bundle's object is listed. -/
theorem answers_agree_iff_title : Admits (putThenList "post/a/title" "post/a/") ∧
    answers (putThenList "post/a/title" "post/a/") .onFiles =
      answers (putThenList "post/a/title" "post/a/") .inMemory := by
  have haccepted : Accepted "post/a/title" := by decide +kernel
  have hstart : IsStart "post/a/" :=
    .below "post/a" "" (by decide +kernel) (by decide +kernel) (by decide)
  have h := admits_putThenList haccepted hstart
  exact ⟨h, (answers_agree_iff _ h).mpr (by decide +kernel)⟩

/-- **Files hide what memory shows.** An object below a directory with an unfinished name is not listed, and
a listing below an object fails. -/
theorem answers_differ :
    (Admits (putThenList ".tmp-d/a" "") ∧
      answers (putThenList ".tmp-d/a" "") .onFiles = [.ok .done, .ok (.keys [])] ∧
      answers (putThenList ".tmp-d/a" "") .inMemory = [.ok .done, .ok (.keys [".tmp-d/a"])]) ∧
    Admits (putThenList "a" "a/b/") ∧
      answers (putThenList "a" "a/b/") .onFiles = [.ok .done, .error (failure "not a directory")] ∧
      answers (putThenList "a" "a/b/") .inMemory = [.ok .done, .ok (.keys [])] := by
  have hhidden : Accepted ".tmp-d/a" := by decide +kernel
  have hstopping : Accepted "a" := by decide +kernel
  have hstart : IsStart "a/b/" :=
    .below "a/b" "" (by decide +kernel) (by decide +kernel) (by decide)
  refine ⟨⟨admits_putThenList hhidden (.inRoot "" (by decide)), ?_⟩,
    admits_putThenList hstopping hstart, ?_⟩
  · decide +kernel
  · decide +kernel

end Syndication.ObjectStore.Agreement
