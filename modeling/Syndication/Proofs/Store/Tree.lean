import Syndication.Proofs.Store.Flat
import Syndication.Proofs.Text.Pieces
import Syndication.Store.Tree

/-!
# Proofs.Store.Tree — a store of files is a function of its keys

A tree is sound when its files can be reached: directories lead to each of them, none of them is a
directory, and the names on the way are names that a file system takes. Every operation keeps a tree
sound. What a sound tree answers for a key is the file on the path of the key, and an operation that
succeeds changes that file only; one that fails changes no file.

## Contents
* `Tree.IsSound`
* `look_eq_file_iff`                 — reaching a file
* `Written`, `written_put`           — what a put comes to
* `get_eq_some`, `lookup_of_get`, `put_spec`, `put_error`, `delete_spec` — objects
-/

namespace Syndication.Store

namespace Tree

/-- The places of the files. -/
def places (t : Tree) : List Path := t.files.map (·.1)

/-- What a file system upholds. -/
structure IsSound (t : Tree) : Prop where
  /-- A file is no directory. -/
  notDir : ∀ p ∈ t.places, p ∉ t.dirs
  /-- Directories lead to every file. -/
  way : ∀ p ∈ t.places, ∀ q, q ≠ [] → q <+: p → q ≠ p → q ∈ t.dirs
  /-- The names on the way are taken. -/
  names : ∀ p ∈ t.places, ∀ name ∈ p, octets name ≤ maxName ∧ '\x00' ∉ name.toList
  /-- Files stand where keys say. -/
  keys : ∀ p ∈ t.places, ∃ key, isValidKey key = true ∧ p = segments key

/-- An empty tree is sound. -/
theorem isSound_empty : IsSound {} where
  notDir := by simp [places]
  way := by simp [places]
  names := by simp [places]
  keys := by simp [places]

theorem isDir_iff (t : Tree) (p : Path) : t.isDir p = true ↔ p = [] ∨ p ∈ t.dirs := by
  simp [isDir]

theorem mem_places_iff (t : Tree) (p : Path) : p ∈ t.places ↔ (t.files.lookup p).isSome = true :=
  (isSome_lookup_iff t.files p).symm

theorem mem_places_of_lookup {t : Tree} {p : Path} {data : Bytes} (h : t.files.lookup p = some data) :
    p ∈ t.places :=
  (t.mem_places_iff p).mpr (by rw [h]; rfl)

theorem segments_ne_nil (key : String) : segments key ≠ [] := Text.split_ne_nil '/' key

theorem segments_injective : Function.Injective segments := Text.split_injective '/'

theorem keyOf_segments (key : String) : keyOf (segments key) = key := Text.joined_split '/' key

theorem IsSound.ne_nil {t : Tree} (h : t.IsSound) {p : Path} (hp : p ∈ t.places) : p ≠ [] := by
  obtain ⟨key, -, rfl⟩ := h.keys p hp
  exact segments_ne_nil key

theorem IsSound.hasNul {t : Tree} (h : t.IsSound) {p q : Path} (hp : p ∈ t.places) (hq : q <+: p) :
    hasNul q = false := by
  rw [Tree.hasNul, List.any_eq_false]
  intro name hname
  simpa using (h.names p hp name (hq.subset hname)).2

/-! ## Walking down -/

/-- On the way to a file the walk passes directories only. -/
theorem IsSound.lookFrom_way {t : Tree} (h : t.IsSound) {p : Path} (hp : p ∈ t.places)
    (at' rest : Path) (hway : at' ++ rest <+: p) (hne : at' ++ rest ≠ p) :
    t.lookFrom at' rest = .directory := by
  induction rest generalizing at' with
  | nil => rfl
  | cons name rest ih =>
    have hsplit : at' ++ name :: rest = at' ++ [name] ++ rest := by simp
    have hhere : at' ++ [name] <+: p := by
      rw [hsplit] at hway
      exact (List.prefix_append _ _).trans hway
    have hname := (h.names p hp name (hway.subset (by simp))).1
    have hdir : at' ++ [name] ∈ t.dirs := by
      apply h.way p hp _ (by simp) hhere
      intro heq
      have hlen := hway.length_le
      rw [← heq] at hlen
      have hnil : rest = [] := by simpa using hlen
      exact hne (by rw [hnil, heq])
    rw [lookFrom, if_neg (by omega), if_pos ((t.isDir_iff _).mpr (.inr hdir))]
    exact ih _ (hsplit ▸ hway) (hsplit ▸ hne)

/-- The walk to a file ends at the file. -/
theorem IsSound.lookFrom_file {t : Tree} (h : t.IsSound) {at' rest : Path} {data : Bytes}
    (hfile : t.files.lookup (at' ++ rest) = some data) (hrest : rest ≠ []) :
    t.lookFrom at' rest = .file data := by
  have hp := mem_places_of_lookup hfile
  induction rest generalizing at' with
  | nil => exact absurd rfl hrest
  | cons name rest ih =>
    have hsplit : at' ++ name :: rest = at' ++ [name] ++ rest := by simp
    have hname := (h.names _ hp name (by simp)).1
    rw [lookFrom, if_neg (by omega)]
    by_cases hnil : rest = []
    · subst hnil
      -- the last name is that of the file, which is no directory
      have hnot : ¬ t.isDir (at' ++ [name]) = true := by
        rw [isDir_iff]
        exact fun hdir => h.notDir _ hp (hdir.resolve_left (by simp))
      rw [if_neg hnot, hfile]
      rfl
    · -- before the last name the walk passes a directory
      have hdir : at' ++ [name] ∈ t.dirs := by
        refine h.way _ hp _ (by simp) (hsplit ▸ List.prefix_append _ _) fun heq => hnil ?_
        simpa using heq
      rw [if_pos ((t.isDir_iff _).mpr (.inr hdir))]
      exact ih (hsplit ▸ hfile) hnil (hsplit ▸ hp)

/-- A walk that ends at a file has followed its path. -/
theorem lookup_of_lookFrom {t : Tree} {at' rest : Path} {data : Bytes}
    (h : t.lookFrom at' rest = .file data) : t.files.lookup (at' ++ rest) = some data := by
  induction rest generalizing at' with
  | nil => cases h
  | cons name rest ih =>
    unfold lookFrom at h
    split at h
    · cases h
    · simp only at h
      split at h
      · have := ih h
        rwa [List.append_assoc, List.singleton_append] at this
      · split at h
        · rename_i found hfound
          split at h
          · rename_i hnil
            rw [List.isEmpty_iff] at hnil
            rw [hnil, hfound]
            simpa using h
          · cases h
        · cases h

/-- **A file is found on its path, and nothing else is found as a file.** -/
theorem IsSound.look_eq_file_iff {t : Tree} (h : t.IsSound) (p : Path) (data : Bytes) :
    t.look p = .file data ↔ t.files.lookup p = some data := by
  constructor
  · intro hlook
    unfold look at hlook
    split at hlook
    · cases hlook
    · simpa using lookup_of_lookFrom hlook
  · intro hfile
    have hp := mem_places_of_lookup hfile
    rw [look, h.hasNul hp (List.prefix_refl p)]
    have hstart : t.files.lookup ([] ++ p) = some data := hfile
    exact h.lookFrom_file hstart (h.ne_nil hp)

/-! ## Reading -/

theorem pathFor_eq (key : String) :
    pathFor key =
      if isValidKey key then .ok (segments key) else .error (.storage (.invalidKey key)) := by
  rw [pathFor, validateKey]
  split <;> rfl

/-- An object that is there is read. -/
theorem IsSound.get_eq_some {t : Tree} (h : t.IsSound) {key : String} {data : Bytes}
    (hfile : t.files.lookup (segments key) = some data) : t.get key = .ok (some data) := by
  obtain ⟨k, hk, hseg⟩ := h.keys _ (mem_places_of_lookup hfile)
  rw [← segments_injective hseg] at hk
  have hlook : t.look (segments key) = .file data := (h.look_eq_file_iff _ _).mpr hfile
  rw [get, pathFor_eq, if_pos hk]
  simp only [bind, Except.bind, hlook]
  rfl

/-- A reading that answers tells what is there. -/
theorem IsSound.lookup_of_get {t : Tree} (h : t.IsSound) {key : String} {answer : Option Bytes}
    (hget : t.get key = .ok answer) : t.files.lookup (segments key) = answer := by
  cases hfile : t.files.lookup (segments key) with
  | some data =>
    rw [h.get_eq_some hfile] at hget
    exact Except.ok.inj hget
  | none =>
    rw [get, pathFor_eq] at hget
    split at hget
    · simp only [bind, Except.bind] at hget
      split at hget
      · exact Except.ok.inj hget
      · rename_i data hlook
        rw [(h.look_eq_file_iff _ _).mp hlook] at hfile
        cases hfile
      · cases hget
      · cases hget
    · cases hget

/-! ## Writing -/

/-- Directories made on a way: they were no files, and the files stay as they were. -/
theorem makeDirs_spec {t t' : Tree} {at' rest : Path} {r : Except Error Unit}
    (h : t.makeDirs at' rest = (r, t')) :
    t'.files = t.files ∧ (∀ d ∈ t.dirs, d ∈ t'.dirs) ∧
      ∀ d ∈ t'.dirs, d ∈ t.dirs ∨ d ∉ t.places := by
  induction rest generalizing t at' with
  | nil =>
    obtain ⟨rfl, rfl⟩ := Prod.mk.inj h
    exact ⟨rfl, fun d hd => hd, fun d hd => .inl hd⟩
  | cons name rest ih =>
    rw [makeDirs] at h
    split at h
    · obtain ⟨rfl, rfl⟩ := Prod.mk.inj h
      exact ⟨rfl, fun d hd => hd, fun d hd => .inl hd⟩
    split at h
    · exact ih h
    split at h
    · obtain ⟨rfl, rfl⟩ := Prod.mk.inj h
      exact ⟨rfl, fun d hd => hd, fun d hd => .inl hd⟩
    · rename_i hfile
      obtain ⟨hfiles, hdirs, hnew⟩ := ih h
      refine ⟨hfiles, fun d hd => hdirs d (List.mem_append_left _ hd), ?_⟩
      intro d hd
      rcases hnew d hd with hd | hd
      · rcases List.mem_append.mp hd with hd | hd
        · exact .inl hd
        · obtain rfl := List.mem_singleton.mp hd
          exact .inr fun hp => hfile ((t.mem_places_iff _).mp hp)
      · exact .inr hd

/-- When all directories could be made, they are there and their names are taken. -/
theorem makeDirs_ok {t t' : Tree} {at' rest : Path} (h : t.makeDirs at' rest = (.ok (), t')) :
    (∀ name ∈ rest, octets name ≤ maxName) ∧
      ∀ q, q ≠ [] → q <+: rest → at' ++ q ∈ t'.dirs := by
  induction rest generalizing t at' with
  | nil => exact ⟨by simp, fun q hne hq => absurd (List.prefix_nil.mp hq) hne⟩
  | cons name rest ih =>
    rw [makeDirs] at h
    split at h
    · cases h
    rename_i hname
    -- the directory was there or has just been made, and the way goes on from it
    have hrest : ∃ u : Tree, at' ++ [name] ∈ u.dirs ∧
        u.makeDirs (at' ++ [name]) rest = (.ok (), t') := by
      split at h
      · rename_i hdir
        exact ⟨t, ((t.isDir_iff _).mp hdir).resolve_left (by simp), h⟩
      split at h
      · cases h
      · exact ⟨_, by simp, h⟩
    obtain ⟨u, hhere, hu⟩ := hrest
    obtain ⟨hnames, hdirs⟩ := ih hu
    constructor
    · intro n hn
      rcases List.mem_cons.mp hn with rfl | hn
      · omega
      · exact hnames n hn
    · intro q hne hq
      obtain ⟨q, rfl⟩ : ∃ q', q = name :: q' := by
        cases q with
        | nil => exact absurd rfl hne
        | cons a q => exact ⟨q, by rw [(List.cons_prefix_cons.mp hq).1]⟩
      by_cases hnil : q = []
      · rw [hnil]
        exact (makeDirs_spec hu).2.1 _ hhere
      · have := hdirs q hnil (List.cons_prefix_cons.mp hq).2
        rwa [List.append_assoc, List.singleton_append] at this

/-- What keeps directories from being made is the file system. -/
theorem makeDirs_error {t : Tree} {at' rest : Path} {e : Error}
    (h : (t.makeDirs at' rest).1 = .error e) : ∃ cause, e = .storage cause := by
  induction rest generalizing t at' with
  | nil => cases h
  | cons name rest ih =>
    rw [makeDirs] at h
    split at h
    · exact ⟨_, (Except.error.inj h).symm⟩
    split at h
    · exact ih h
    split at h
    · exact ⟨_, (Except.error.inj h).symm⟩
    · exact ih h

/-- Directories that are no files do no harm. -/
theorem IsSound.withDirs {t t' : Tree} (h : t.IsSound) (hfiles : t'.files = t.files)
    (hdirs : ∀ d ∈ t.dirs, d ∈ t'.dirs) (hnew : ∀ d ∈ t'.dirs, d ∈ t.dirs ∨ d ∉ t.places) :
    t'.IsSound := by
  have hplaces : t'.places = t.places := by rw [places, places, hfiles]
  constructor <;> rw [hplaces]
  · exact fun p hp hd => (hnew p hd).elim (h.notDir p hp) fun hn => hn hp
  · exact fun p hp q hne hq hqp => hdirs q (h.way p hp q hne hq hqp)
  · exact h.names
  · exact h.keys

/-- A file that is written changes its own place only. -/
theorem lookup_writeFile (t : Tree) (p q : Path) (data : Bytes) :
    (t.writeFile p data).files.lookup q = if q = p then some data else t.files.lookup q := by
  rw [writeFile, List.lookup_append, lookup_filter_ne, lookup_cons_eq]
  by_cases hq : q = p
  · rw [if_pos hq, if_pos hq, if_pos hq, Option.none_or]
  · rw [if_neg hq, if_neg hq, if_neg hq, List.lookup_nil, Option.or_none]

/-- A file may be written where the directories on its way are. -/
theorem IsSound.writeFile {t : Tree} (h : t.IsSound) {key : String} {data : Bytes}
    (hkey : isValidKey key = true) (hdir : segments key ∉ t.dirs)
    (hway : ∀ q, q ≠ [] → q <+: segments key → q ≠ segments key → q ∈ t.dirs)
    (hnames : ∀ name ∈ segments key, octets name ≤ maxName ∧ '\x00' ∉ name.toList) :
    (t.writeFile (segments key) data).IsSound := by
  have hplaces : ∀ p ∈ (t.writeFile (segments key) data).places, p = segments key ∨ p ∈ t.places := by
    intro p hp
    rw [mem_places_iff, lookup_writeFile] at hp
    split at hp
    · rename_i heq
      exact .inl heq
    · exact .inr ((t.mem_places_iff p).mpr hp)
  constructor
  · intro p hp
    rcases hplaces p hp with rfl | hp
    · exact hdir
    · exact h.notDir p hp
  · intro p hp
    rcases hplaces p hp with rfl | hp
    · exact hway
    · exact h.way p hp
  · intro p hp
    rcases hplaces p hp with rfl | hp
    · exact hnames
    · exact h.names p hp
  · intro p hp
    rcases hplaces p hp with rfl | hp
    · exact ⟨key, hkey, rfl⟩
    · exact h.keys p hp

/-- The path of a key is the way to its last name, and this name. -/
theorem dropLast_append_last (key : String) :
    (segments key).dropLast ++ [(segments key).getLast?.getD ""] = segments key := by
  rw [List.getLast?_eq_some_getLast (segments_ne_nil key), Option.getD_some,
    List.dropLast_concat_getLast]

theorem not_mem_of_hasNul {p : Path} (h : hasNul p = false) : ∀ name ∈ p, '\x00' ∉ name.toList := by
  intro name hname
  rw [hasNul, List.any_eq_false] at h
  simpa using h name hname

theorem put_eq {t : Tree} {key : String} {data : Bytes} (hkey : isValidKey key = true) :
    t.put key data =
      if hasNul (segments key).dropLast then (.error (failure "name holds a NUL character"), t)
      else match t.makeDirs [] (segments key).dropLast with
        | (.error e, t) => (.error e, t)
        | (.ok (), t) => t.placeFile (segments key) data := by
  rewrite [put, pathFor_eq, if_pos hkey]
  rfl

/-- A file is placed, or its name or a directory keeps it from being placed and nothing changes. -/
theorem placeFile_cases (t : Tree) (p : Path) (data : Bytes) :
    (t.placeFile p data = (.ok (), t.writeFile p data) ∧ hasNul [p.getLast?.getD ""] = false ∧
        octets (p.getLast?.getD "") + tempOverhead ≤ maxName ∧ t.isDir p = false) ∨
      ∃ cause, t.placeFile p data = (.error (.storage cause), t) := by
  simp only [placeFile]
  split
  · exact .inr ⟨_, rfl⟩
  rename_i hnul
  split
  · exact .inr ⟨_, rfl⟩
  rename_i hfits
  split
  · exact .inr ⟨_, rfl⟩
  rename_i hdir
  exact .inl ⟨rfl, Bool.eq_false_iff.mpr hnul, Nat.le_of_not_lt hfits, Bool.eq_false_iff.mpr hdir⟩

/-- **What a put comes to**: it is refused before anything is done, or directories are made on the way,
and then the object is placed behind them or not. -/
inductive Written (t : Tree) (key : String) (data : Bytes) : Except Error Unit → Tree → Prop where
  | refused (cause : StorageError) : Written t key data (.error (.storage cause)) t
  | failed (cause : StorageError) {answer : Except Error Unit} {u : Tree}
      (made : t.makeDirs [] (segments key).dropLast = (answer, u)) :
      Written t key data (.error (.storage cause)) u
  | placed {u : Tree} (valid : isValidKey key = true)
      (made : t.makeDirs [] (segments key).dropLast = (.ok (), u))
      (named : hasNul (segments key) = false)
      (fits : octets ((segments key).getLast?.getD "") + tempOverhead ≤ maxName)
      (free : segments key ∉ u.dirs) : Written t key data (.ok ()) (u.writeFile (segments key) data)

theorem written_put (t : Tree) (key : String) (data : Bytes) :
    Written t key data (t.put key data).1 (t.put key data).2 := by
  by_cases hkey : isValidKey key = true
  case neg =>
    rw [put, pathFor_eq, if_neg hkey]
    exact .refused _
  rw [put_eq hkey]
  split
  · exact .refused _
  rename_i hway
  rcases hmade : t.makeDirs [] (segments key).dropLast with ⟨e | ⟨⟩, u⟩
  · obtain ⟨cause, rfl⟩ := makeDirs_error (congrArg Prod.fst hmade)
    exact .failed cause hmade
  · show Written t key data (u.placeFile _ data).1 (u.placeFile _ data).2
    rcases u.placeFile_cases (segments key) data with ⟨heq, hlast, hfits, hdir⟩ | ⟨cause, heq⟩
    · rw [heq]
      refine .placed hkey hmade ?_ hfits fun hd => ?_
      · rw [← dropLast_append_last key, hasNul, List.any_append, Bool.or_eq_false_iff]
        exact ⟨Bool.eq_false_iff.mpr hway, hlast⟩
      · rw [(u.isDir_iff _).mpr (.inr hd)] at hdir
        cases hdir
    · rw [heq]
      exact .failed cause hmade

/-- **Putting an object.** The tree stays sound. The object is there if it could be put, and else no
file has changed. -/
theorem IsSound.put_spec {t t' : Tree} (h : t.IsSound) {key : String} {data : Bytes}
    {r : Except Error Unit} (hput : t.put key data = (r, t')) :
    t'.IsSound ∧
      ((r = .ok () ∧
          ∀ p, t'.files.lookup p = if p = segments key then some data else t.files.lookup p) ∨
        ((∃ e, r = .error e) ∧ t'.files = t.files)) := by
  have hwritten := t.written_put key data
  simp only [hput] at hwritten
  cases hwritten with
  | refused cause => exact ⟨h, .inr ⟨⟨_, rfl⟩, rfl⟩⟩
  | failed cause made =>
    -- some directories may have been made, but no file has changed
    obtain ⟨hfiles, hdirs, hnew⟩ := makeDirs_spec made
    exact ⟨h.withDirs hfiles hdirs hnew, .inr ⟨⟨_, rfl⟩, hfiles⟩⟩
  | placed valid made named fits free =>
    obtain ⟨hfiles, hdirs, hnew⟩ := makeDirs_spec made
    obtain ⟨hnames, hway⟩ := makeDirs_ok made
    refine ⟨(h.withDirs hfiles hdirs hnew).writeFile valid free ?_ ?_,
      .inl ⟨rfl, fun p => by rw [lookup_writeFile, hfiles]⟩⟩
    · intro q hne hq hqp
      rw [← dropLast_append_last key, List.prefix_concat_iff, dropLast_append_last] at hq
      exact hway q hne (hq.resolve_left hqp)
    · intro name hname
      refine ⟨?_, not_mem_of_hasNul named name hname⟩
      rw [← dropLast_append_last key, List.mem_append, List.mem_singleton] at hname
      rcases hname with hname | rfl
      · exact hnames name hname
      · omega

/-- What keeps an object from being put is its key or the file system. -/
theorem put_error {t : Tree} {key : String} {data : Bytes} {e : Error}
    (h : (t.put key data).1 = .error e) : ∃ cause, e = .storage cause := by
  have hwritten := t.written_put key data
  generalize (t.put key data).2 = t' at hwritten
  rw [h] at hwritten
  cases hwritten with
  | refused cause => exact ⟨cause, rfl⟩
  | failed cause made => exact ⟨cause, rfl⟩

/-! ## Deleting -/

theorem isOccupied_of_file {t : Tree} {p q : Path} (hp : p ∈ t.places) (h : p.dropLast = q) :
    t.isOccupied q = true := by
  obtain ⟨f, hf, rfl⟩ := List.mem_map.mp hp
  rw [isOccupied, Bool.or_eq_true]
  exact .inr (List.any_eq_true.mpr ⟨f, hf, by simpa using h⟩)

theorem isOccupied_of_dir {t : Tree} {d q : Path} (hd : d ∈ t.dirs) (hne : d ≠ [])
    (h : d.dropLast = q) : t.isOccupied q = true := by
  rw [isOccupied, Bool.or_eq_true]
  exact .inl (List.any_eq_true.mpr ⟨d, hd, by simp [h, hne]⟩)

/-- A directory on the way to a file holds something. -/
theorem IsSound.isOccupied {t : Tree} (h : t.IsSound) {p q : Path} (hp : p ∈ t.places)
    (hq : q <+: p) (hqp : q ≠ p) : t.isOccupied q = true := by
  obtain ⟨rest, rfl⟩ := hq
  cases rest with
  | nil => exact absurd (List.append_nil q).symm hqp
  | cons name rest =>
    have hsplit : q ++ name :: rest = q ++ [name] ++ rest := by simp
    by_cases hlast : rest = []
    · exact isOccupied_of_file hp (by simp [hlast])
    · refine isOccupied_of_dir (h.way _ hp (q ++ [name]) (by simp) ?_ ?_) (by simp) (by simp)
      · exact hsplit ▸ List.prefix_append _ _
      · intro heq
        exact hlast (by simpa using heq)

/-- An unoccupied directory can be removed. -/
theorem IsSound.withoutDir {t : Tree} (h : t.IsSound) {d : Path} (hd : t.isOccupied d ≠ true) :
    IsSound { t with dirs := t.dirs.filter (· ≠ d) } where
  notDir := fun p hp hmem => h.notDir p hp (List.mem_filter.mp hmem).1
  way := by
    intro p hp q hne hq hqp
    refine List.mem_filter.mpr ⟨h.way p hp q hne hq hqp, ?_⟩
    -- what leads to a file is occupied, and was not removed
    have hqd : q ≠ d := fun heq => hd (heq ▸ h.isOccupied hp hq hqp)
    simpa using hqd
  names := h.names
  keys := h.keys

theorem prune_spec {t : Tree} (h : t.IsSound) (p : Path) (levels : Nat) :
    (t.prune p levels).IsSound ∧ (t.prune p levels).files = t.files := by
  induction levels generalizing t p with
  | zero => exact ⟨h, rfl⟩
  | succ levels ih =>
    unfold prune
    split
    · exact ⟨h, rfl⟩
    · rename_i hocc
      rw [Bool.or_eq_true, not_or] at hocc
      exact ih (h.withoutDir hocc.2) p.dropLast

theorem IsSound.withoutFile {t : Tree} (h : t.IsSound) (p : Path) :
    IsSound { t with files := t.files.filter (·.1 ≠ p) } := by
  have hplaces : ∀ q ∈ places { t with files := t.files.filter (·.1 ≠ p) }, q ∈ t.places := by
    intro q hq
    obtain ⟨f, hf, rfl⟩ := List.mem_map.mp hq
    exact List.mem_map.mpr ⟨f, (List.mem_filter.mp hf).1, rfl⟩
  exact ⟨fun q hq => h.notDir q (hplaces q hq), fun q hq => h.way q (hplaces q hq),
    fun q hq => h.names q (hplaces q hq), fun q hq => h.keys q (hplaces q hq)⟩

/-- The keys of a sound tree are valid. -/
theorem IsSound.isValidKey {t : Tree} (h : t.IsSound) {key : String} {data : Bytes}
    (hfile : t.files.lookup (segments key) = some data) : isValidKey key = true := by
  obtain ⟨k, hk, hseg⟩ := h.keys _ (mem_places_of_lookup hfile)
  rwa [segments_injective hseg]

/-- **Deleting an object.** The tree stays sound and no other file changes. Whatever the answer, there
is no object under the key afterwards; if there was one, the answer says so. -/
theorem IsSound.delete_spec {t t' : Tree} (h : t.IsSound) {key : String}
    {r : Except Error Bool} (hdel : t.delete key = (r, t')) :
    t'.IsSound ∧
      (∀ p, t'.files.lookup p = if p = segments key then none else t.files.lookup p) ∧
      ((t.files.lookup (segments key)).isSome = true → r = .ok true) := by
  rw [delete, pathFor_eq] at hdel
  cases hfile : t.files.lookup (segments key) with
  | none =>
    have hlook : ∀ data, t.look (segments key) ≠ .file data := by
      intro data hlook
      rw [(h.look_eq_file_iff _ _).mp hlook] at hfile
      cases hfile
    -- where no file is found, every answer leaves the tree
    have hsame : t' = t := by
      split at hdel
      · exact (Prod.mk.inj hdel).2.symm
      rename_i p hpath
      split at hpath
      case isFalse => cases hpath
      obtain rfl := Except.ok.inj hpath
      split at hdel
      · exact (Prod.mk.inj hdel).2.symm
      · rename_i data hdata
        exact absurd hdata (hlook data)
      · exact (Prod.mk.inj hdel).2.symm
      · exact (Prod.mk.inj hdel).2.symm
    rw [hsame]
    refine ⟨h, fun p => ?_, by simp⟩
    split
    · rename_i heq
      rw [heq, hfile]
    · rfl
  | some data =>
    rw [if_pos (h.isValidKey hfile)] at hdel
    simp only [(h.look_eq_file_iff _ _).mpr hfile] at hdel
    obtain ⟨rfl, rfl⟩ := Prod.mk.inj hdel
    obtain ⟨hsound, hfiles⟩ :=
      prune_spec (h.withoutFile (segments key)) (segments key).dropLast (segments key).length
    refine ⟨hsound, fun p => ?_, fun _ => rfl⟩
    rw [hfiles]
    exact lookup_filter_ne t.files (segments key) p

end Tree
end Syndication.Store
