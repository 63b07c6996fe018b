import Syndication.Proofs.Store.Tree

/-!
# Proofs.Store.Way — an operation depends on the way to its key

What a tree answers for a key is told by three things: the file at the path of the key, whether a
directory stands there, and whether a file stands on the way. An operation changes the file at its own
path, and directories on the way to it. So it is felt by no path that its own is not on the way to, and
that is not on its own way.

Two things are asked of the tree: directories stand in directories, and the file system takes the names
of the path. A name that is too long is an error only once the directories before it are there, so for
such a path the way would have to be told directory by directory.

## Contents
* `Tree.IsRooted`, `Fits`, `Tree.isBlocked`
* `Tree.look_eq`, `Tree.fst_makeDirs`      — answers told by the way
* `Tree.AlikeAt`, `Tree.get_congr`, `Tree.put_congr`, `Tree.delete_congr`
* `Tree.OnWay`, `Tree.onWay_put`, `Tree.onWay_delete`
* `Tree.IsRooted.put`, `Tree.IsRooted.delete`
-/

namespace Syndication.Store

/-- The file system takes the names. -/
def Fits (p : Path) : Prop := ∀ name ∈ p, Tree.octets name ≤ Tree.maxName

/-- Neither path is on the way to the other. -/
def Apart (p q : Path) : Prop := ¬ p <+: q ∧ ¬ q <+: p

theorem Apart.symm {p q : Path} (h : Apart p q) : Apart q p := ⟨h.2, h.1⟩

theorem Apart.ne {p q : Path} (h : Apart p q) : p ≠ q := fun heq => h.1 (heq ▸ List.prefix_refl p)

/-- Paths of one length are apart if they are two. -/
theorem apart_of_length {p q : Path} (hlength : p.length = q.length) (hne : p ≠ q) : Apart p q :=
  ⟨fun h => hne (h.eq_of_length hlength), fun h => hne (h.eq_of_length hlength.symm).symm⟩

/-- Paths that begin with two names are apart. -/
theorem apart_cons {name name' : String} (h : name ≠ name') (p q : Path) :
    Apart (name :: p) (name' :: q) :=
  ⟨fun hbegins => h (List.cons_prefix_cons.mp hbegins).1,
    fun hbegins => h (List.cons_prefix_cons.mp hbegins).1.symm⟩

/-- What is on the way to a path does not end at it. -/
theorem prefix_dropLast_iff {p q : Path} (hp : p ≠ []) : q <+: p.dropLast ↔ q <+: p ∧ q ≠ p := by
  have hsplit : p.dropLast ++ [p.getLast hp] = p := List.dropLast_concat_getLast hp
  constructor
  · intro h
    refine ⟨h.trans (List.dropLast_prefix p), ?_⟩
    rintro rfl
    have hlength := h.length_le
    rw [List.length_dropLast] at hlength
    have hpos : 0 < q.length := List.length_pos_iff.mpr hp
    omega
  · rintro ⟨h, hne⟩
    rw [← hsplit, List.prefix_concat_iff, hsplit] at h
    exact h.resolve_left hne

namespace Tree

/-- Directories stand in directories. -/
def IsRooted (t : Tree) : Prop := ∀ d ∈ t.dirs, ∀ q, q ≠ [] → q <+: d → q ∈ t.dirs

theorem isRooted_empty : IsRooted {} := by
  intro d hd
  cases hd

/-- A file stands somewhere on a way. -/
def isBlocked (t : Tree) (way : Path) : Bool := t.places.any (·.isPrefixOf way)

theorem isBlocked_iff {t : Tree} {way : Path} : t.isBlocked way = true ↔ ∃ q ∈ t.places, q <+: way := by
  rw [isBlocked, List.any_eq_true]
  simp only [List.isPrefixOf_iff_prefix]

variable {t t' u : Tree} {p q at' rest : Path} {key : String} {data : Bytes}

/-! ## Walking down -/

/-- On the way to a directory there is no file. -/
theorem IsRooted.not_file (hr : t.IsRooted) (h : t.IsSound) (hp : p ∈ t.places)
    (hq : t.isDir q = true) : ¬ p <+: q := by
  intro hbegins
  rcases (t.isDir_iff q).mp hq with rfl | hdir
  · exact h.ne_nil hp (List.prefix_nil.mp hbegins)
  · exact h.notDir p hp (hr q hdir p (h.ne_nil hp) hbegins)

/-- The way to a directory is free. -/
theorem IsRooted.isBlocked_of_dir (hr : t.IsRooted) (h : t.IsSound) (hq : t.isDir q = true) :
    t.isBlocked q = false := by
  rw [Bool.eq_false_iff, Ne, isBlocked_iff]
  rintro ⟨p, hp, hbegins⟩
  exact hr.not_file h hp hq hbegins

/-- Where a directory is missing, there is nothing below it. -/
theorem IsRooted.nothing_below (hr : t.IsRooted) (h : t.IsSound) {name : String}
    (hat : t.isDir at' = true) (hdir : at' ++ [name] ∉ t.dirs)
    (hfile : t.files.lookup (at' ++ [name]) = none) (rest : Path) :
    at' ++ [name] ++ rest ∉ t.dirs ∧ t.isBlocked (at' ++ [name] ++ rest) = false := by
  have hhere : at' ++ [name] <+: at' ++ [name] ++ rest := List.prefix_append _ _
  refine ⟨fun hbelow => hdir (hr _ hbelow _ (by simp) hhere), ?_⟩
  rw [Bool.eq_false_iff, Ne, isBlocked_iff]
  rintro ⟨p, hp, hbegins⟩
  -- a file on the way would stand before the missing directory, in its place, or below it
  rcases List.prefix_or_prefix_of_prefix hbegins hhere with hbefore | hbelow
  · rcases List.prefix_concat_iff.mp hbefore with rfl | hbefore
    · rw [mem_places_iff, hfile] at hp
      cases hp
    · exact hr.not_file h hp hat hbefore
  · by_cases heq : at' ++ [name] = p
    · rw [← heq, mem_places_iff, hfile] at hp
      cases hp
    · exact hdir (h.way p hp _ (by simp) hbelow heq)

/-- What stands at a path, told by its way. -/
def standing (t : Tree) (p : Path) : Lookup :=
  if p ∈ t.dirs then .directory
  else if t.isBlocked p.dropLast then .failed "not a directory"
  else match t.files.lookup p with
    | some data => .file data
    | none => .missing

theorem lookFrom_eq (hr : t.IsRooted) (h : t.IsSound) (hat : t.isDir at' = true) (hrest : rest ≠ [])
    (hfits : Fits rest) : t.lookFrom at' rest = t.standing (at' ++ rest) := by
  induction rest generalizing at' with
  | nil => exact absurd rfl hrest
  | cons name rest ih =>
    have hname : octets name ≤ maxName := hfits name List.mem_cons_self
    have hsplit : at' ++ name :: rest = at' ++ [name] ++ rest := by simp
    have hbefore : t.isBlocked at' = false := hr.isBlocked_of_dir h hat
    rw [lookFrom, if_neg (by omega)]
    by_cases hdir : t.isDir (at' ++ [name]) = true
    · rw [if_pos hdir]
      by_cases hnil : rest = []
      · have hmem : at' ++ [name] ∈ t.dirs := ((t.isDir_iff _).mp hdir).resolve_left (by simp)
        rw [hnil, standing, if_pos hmem]
        rfl
      · rw [ih hdir hnil fun n hn => hfits n (List.mem_cons_of_mem _ hn), hsplit]
    · have hnot : at' ++ [name] ∉ t.dirs := fun hmem => hdir ((t.isDir_iff _).mpr (.inr hmem))
      rw [if_neg hdir]
      cases hfile : t.files.lookup (at' ++ [name]) with
      | some data =>
        have hp : at' ++ [name] ∈ t.places := mem_places_of_lookup hfile
        by_cases hnil : rest = []
        · subst hnil
          simp [standing, hnot, hbefore, hfile]
        · -- a file stands where a directory would have to
          have hbelow : at' ++ name :: rest ∉ t.dirs := fun hmem =>
            hr.not_file h hp ((t.isDir_iff _).mpr (.inr hmem)) (hsplit ▸ List.prefix_append _ _)
          have hblocked : t.isBlocked (at' ++ name :: rest).dropLast = true := by
            rw [isBlocked_iff]
            refine ⟨_, hp, ?_⟩
            rw [hsplit, List.dropLast_append_of_ne_nil hnil]
            exact List.prefix_append _ _
          have hlast : rest.isEmpty = false := by simp [hnil]
          rw [standing, if_neg hbelow, if_pos hblocked]
          simp only [hlast, Bool.false_eq_true, if_false]
      | none =>
        obtain ⟨hbelow, hfree⟩ := hr.nothing_below h hat hnot hfile rest
        have hway : t.isBlocked (at' ++ name :: rest).dropLast = false := by
          rw [Bool.eq_false_iff, Ne, isBlocked_iff] at hfree ⊢
          rintro ⟨p, hp, hbegins⟩
          exact hfree ⟨p, hp, hsplit ▸ hbegins.trans (List.dropLast_prefix _)⟩
        have hnone : t.files.lookup (at' ++ name :: rest) = none := by
          rw [← Option.not_isSome_iff_eq_none, ← mem_places_iff]
          intro hp
          rw [Bool.eq_false_iff, Ne, isBlocked_iff] at hfree
          exact hfree ⟨_, hp, hsplit ▸ List.prefix_refl _⟩
        rw [← hsplit] at hbelow
        simp only [standing, if_neg hbelow, hway, Bool.false_eq_true, if_false, hnone]

/-- **What is found at a path** is told by its way. -/
theorem look_eq (hr : t.IsRooted) (h : t.IsSound) (hp : p ≠ []) (hfits : Fits p) :
    t.look p = if hasNul p then .failed "name holds a NUL character" else t.standing p := by
  rw [look]
  split
  · rfl
  · exact lookFrom_eq hr h rfl hp hfits

/-! ## Making directories -/

theorem makeDirs_new {r : Except Error Unit} (h : t.makeDirs at' rest = (r, t')) :
    ∀ d ∈ t'.dirs, d ∈ t.dirs ∨ d <+: at' ++ rest := by
  induction rest generalizing t at' with
  | nil =>
    obtain ⟨rfl, rfl⟩ := Prod.mk.inj h
    exact fun d hd => .inl hd
  | cons name rest ih =>
    have hsplit : at' ++ name :: rest = at' ++ [name] ++ rest := by simp
    rw [makeDirs] at h
    split at h
    · obtain ⟨rfl, rfl⟩ := Prod.mk.inj h
      exact fun d hd => .inl hd
    split at h
    · intro d hd
      rw [hsplit]
      exact ih h d hd
    split at h
    · obtain ⟨rfl, rfl⟩ := Prod.mk.inj h
      exact fun d hd => .inl hd
    · intro d hd
      rw [hsplit]
      rcases ih h d hd with hold | hnew
      · rcases List.mem_append.mp hold with hold | hhere
        · exact .inl hold
        · rw [List.mem_singleton.mp hhere]
          exact .inr (List.prefix_append _ _)
      · exact .inr hnew

/-- A directory made in a directory. -/
theorem IsRooted.withDir (hr : t.IsRooted) (hat : t.isDir at' = true) (name : String) :
    IsRooted { t with dirs := t.dirs ++ [at' ++ [name]] } := by
  intro d hd q hne hq
  rcases List.mem_append.mp hd with hold | hnew
  · exact List.mem_append_left _ (hr d hold q hne hq)
  · rw [List.mem_singleton.mp hnew] at hq
    rcases List.prefix_concat_iff.mp hq with rfl | hq
    · exact List.mem_append_right _ (List.mem_singleton_self _)
    · refine List.mem_append_left _ ?_
      rcases (t.isDir_iff at').mp hat with rfl | hdir
      · exact absurd (List.prefix_nil.mp hq) hne
      · exact hr at' hdir q hne hq

theorem IsRooted.makeDirs {r : Except Error Unit} (hr : t.IsRooted) (hat : t.isDir at' = true)
    (h : t.makeDirs at' rest = (r, t')) : t'.IsRooted := by
  induction rest generalizing t at' with
  | nil =>
    obtain ⟨rfl, rfl⟩ := Prod.mk.inj h
    exact hr
  | cons name rest ih =>
    rw [Tree.makeDirs] at h
    split at h
    · obtain ⟨rfl, rfl⟩ := Prod.mk.inj h
      exact hr
    split at h
    · rename_i hdir
      exact ih hr hdir h
    split at h
    · obtain ⟨rfl, rfl⟩ := Prod.mk.inj h
      exact hr
    · exact ih (hr.withDir hat name) ((isDir_iff _ _).mpr (.inr (by simp))) h

/-- **Directories can be made** on a way unless a file stands on it. -/
theorem fst_makeDirs (hr : t.IsRooted) (h : t.IsSound) (hat : t.isDir at' = true) (hfits : Fits rest) :
    (t.makeDirs at' rest).1 =
      if t.isBlocked (at' ++ rest) then .error (failure "not a directory") else .ok () := by
  induction rest generalizing t at' with
  | nil =>
    rw [List.append_nil, hr.isBlocked_of_dir h hat]
    rfl
  | cons name rest ih =>
    have hsplit : at' ++ name :: rest = at' ++ [name] ++ rest := by simp
    have hname : octets name ≤ maxName := hfits name List.mem_cons_self
    have hrest : Fits rest := fun n hn => hfits n (List.mem_cons_of_mem _ hn)
    rw [Tree.makeDirs, if_neg (by omega), hsplit]
    by_cases hdir : t.isDir (at' ++ [name]) = true
    · rw [if_pos hdir]
      exact ih hr h hdir hrest
    rw [if_neg hdir]
    by_cases hfile : (t.files.lookup (at' ++ [name])).isSome = true
    · rw [if_pos hfile, if_pos]
      exact isBlocked_iff.mpr ⟨_, (t.mem_places_iff _).mpr hfile, List.prefix_append _ _⟩
    · rw [if_neg hfile]
      -- the new directory is no file, so the tree with it is as sound
      have hsound : IsSound { t with dirs := t.dirs ++ [at' ++ [name]] } := by
        refine h.withDirs rfl (fun d hd => List.mem_append_left _ hd) fun d hd => ?_
        rcases List.mem_append.mp hd with hold | hnew
        · exact .inl hold
        · rw [List.mem_singleton.mp hnew]
          exact .inr fun hp => hfile ((t.mem_places_iff _).mp hp)
      exact ih (hr.withDir hat name) hsound ((isDir_iff _ _).mpr (.inr (by simp))) hrest

/-- The place of a key is no directory that is made on its way. -/
theorem isDir_makeDirs (t : Tree) (key : String) :
    (t.makeDirs [] (segments key).dropLast).2.isDir (segments key) = t.isDir (segments key) := by
  obtain ⟨-, hold, -⟩ := makeDirs_spec (Prod.eta (t.makeDirs [] (segments key).dropLast)).symm
  have hnew := makeDirs_new (Prod.eta (t.makeDirs [] (segments key).dropLast)).symm (segments key)
  rw [Bool.eq_iff_iff, isDir_iff, isDir_iff]
  refine or_congr Iff.rfl ⟨fun hmem => (hnew hmem).resolve_right fun hbegins => ?_, hold _⟩
  exact ((prefix_dropLast_iff (segments_ne_nil key)).mp hbegins).2 rfl

/-! ## Changes -/

/-- At a path and on the way to it a tree is as another one. -/
structure AlikeAt (p : Path) (t u : Tree) : Prop where
  file : t.files.lookup p = u.files.lookup p
  dir : p ∈ t.dirs ↔ p ∈ u.dirs
  blocked : t.isBlocked p.dropLast = u.isBlocked p.dropLast

namespace AlikeAt

theorem refl (p : Path) (t : Tree) : AlikeAt p t t := ⟨rfl, Iff.rfl, rfl⟩

theorem symm (h : AlikeAt p t u) : AlikeAt p u t := ⟨h.file.symm, h.dir.symm, h.blocked.symm⟩

theorem trans {v : Tree} (h : AlikeAt p t u) (h' : AlikeAt p u v) : AlikeAt p t v :=
  ⟨h.file.trans h'.file, h.dir.trans h'.dir, h.blocked.trans h'.blocked⟩

theorem standing_eq (h : AlikeAt p t u) : t.standing p = u.standing p := by
  simp only [standing, h.dir, h.blocked, h.file]

end AlikeAt

/-- A tree that has changed at a path, and in directories on the way to it. -/
structure OnWay (p : Path) (t t' : Tree) : Prop where
  files : ∀ q, q ≠ p → t'.files.lookup q = t.files.lookup q
  dirs : ∀ d, (d ∈ t'.dirs ↔ d ∈ t.dirs) ∨ (d <+: p ∧ d ≠ p)

namespace OnWay

theorem isBlocked_eq (h : OnWay p t t') {way : Path} (hway : ¬ p <+: way) :
    t'.isBlocked way = t.isBlocked way := by
  rw [Bool.eq_iff_iff, isBlocked_iff, isBlocked_iff]
  refine exists_congr fun q => and_congr_left fun hq => ?_
  have hne : q ≠ p := fun heq => hway (heq ▸ hq)
  rw [mem_places_iff, mem_places_iff, h.files q hne]

/-- The change is not felt apart from the path. -/
theorem alikeAt (h : OnWay p t t') (hq : Apart q p) : AlikeAt q t t' where
  file := (h.files q hq.ne).symm
  dir := ((h.dirs q).resolve_right fun hway => hq.1 hway.1).symm
  blocked := by
    refine (h.isBlocked_eq fun hp => hq.2 ?_).symm
    exact hp.trans (List.dropLast_prefix q)

/-- At the path itself only the file may have changed. -/
theorem alikeAt_self {u u' : Tree} (h : OnWay p t t') (h' : OnWay p u u') (hp : p ≠ [])
    (halike : AlikeAt p t u) (hfile : t'.files.lookup p = u'.files.lookup p) : AlikeAt p t' u' where
  file := hfile
  dir := by
    have hdir := (h.dirs p).resolve_right fun hway => hway.2 rfl
    have hdir' := (h'.dirs p).resolve_right fun hway => hway.2 rfl
    exact hdir.trans (halike.dir.trans hdir'.symm)
  blocked := by
    have hway : ¬ p <+: p.dropLast := fun hbegins => ((prefix_dropLast_iff hp).mp hbegins).2 rfl
    rw [h.isBlocked_eq hway, h'.isBlocked_eq hway, halike.blocked]

end OnWay

/-! ## Putting -/

/-- Whether a file can be placed depends on its place alone. -/
theorem fst_placeFile (h : t.isDir p = u.isDir p) :
    (t.placeFile p data).1 = (u.placeFile p data).1 := by
  simp only [placeFile, h]
  repeat' split
  all_goals rfl

/-- A put makes directories, or fails before it does. -/
theorem dirs_put (t : Tree) (key : String) (data : Bytes) : (t.put key data).2.dirs = t.dirs ∨
    (t.put key data).2.dirs = (t.makeDirs [] (segments key).dropLast).2.dirs := by
  have hwritten := t.written_put key data
  generalize (t.put key data).1 = answer, (t.put key data).2 = t' at hwritten ⊢
  cases hwritten with
  | refused cause => exact .inl rfl
  | failed cause made => exact .inr (by rw [made])
  | placed valid made named fits free => exact .inr (by rw [made, writeFile])

theorem onWay_put (h : t.IsSound) (key : String) (data : Bytes) :
    OnWay (segments key) t (t.put key data).2 where
  files := by
    intro q hq
    rcases (h.put_spec (Prod.eta (t.put key data)).symm).2 with ⟨-, hfiles⟩ | ⟨-, hfiles⟩
    · rw [hfiles, if_neg hq]
    · rw [hfiles]
  dirs := by
    intro d
    rcases t.dirs_put key data with hsame | hmade
    · rw [hsame]
      exact .inl Iff.rfl
    · rw [hmade]
      obtain ⟨-, hold, -⟩ := makeDirs_spec (Prod.eta (t.makeDirs [] (segments key).dropLast)).symm
      have hnew := makeDirs_new (Prod.eta (t.makeDirs [] (segments key).dropLast)).symm d
      by_cases hd : d <+: (segments key).dropLast
      · exact .inr ((prefix_dropLast_iff (segments_ne_nil key)).mp hd)
      · exact .inl ⟨fun hmem => (hnew hmem).resolve_right hd, hold d⟩

/-- A put keeps directories in directories. -/
theorem IsRooted.put (hr : t.IsRooted) (key : String) (data : Bytes) :
    IsRooted (t.put key data).2 := by
  have hmade : IsRooted (t.makeDirs [] (segments key).dropLast).2 :=
    hr.makeDirs rfl (Prod.eta (t.makeDirs [] (segments key).dropLast)).symm
  unfold IsRooted at *
  rcases t.dirs_put key data with heq | heq
  · rwa [heq]
  · rwa [heq]

/-! ## Deleting -/

/-- Only directories on the way up are removed. -/
theorem mem_dirs_prune (t : Tree) (p : Path) (levels : Nat) {d : Path} (hd : ¬ d <+: p) :
    d ∈ (t.prune p levels).dirs ↔ d ∈ t.dirs := by
  induction levels generalizing t p with
  | zero => rfl
  | succ levels ih =>
    unfold prune
    split
    · rfl
    · have hne : d ≠ p := fun heq => hd (heq ▸ List.prefix_refl d)
      have hup : ¬ d <+: p.dropLast := fun hbegins => hd (hbegins.trans (List.dropLast_prefix p))
      rw [ih _ _ hup, List.mem_filter]
      simp [hne]

/-- A directory without directories can be removed. -/
theorem IsRooted.withoutDir (hr : t.IsRooted) {d : Path} (hd : t.isOccupied d ≠ true) :
    IsRooted { t with dirs := t.dirs.filter (· ≠ d) } := by
  intro e he q hne hq
  obtain ⟨hmem, hed⟩ := List.mem_filter.mp he
  refine List.mem_filter.mpr ⟨hr e hmem q hne hq, ?_⟩
  have hqd : q ≠ d := by
    rintro rfl
    obtain ⟨rest, rfl⟩ := hq
    -- what stands next on the way would stand in the directory that was removed
    cases rest with
    | nil => simp at hed
    | cons name rest =>
      have hnext : q ++ [name] ∈ t.dirs := by
        refine hr _ hmem _ (by simp) ?_
        rw [List.append_cons q name rest]
        exact List.prefix_append _ _
      exact hd (isOccupied_of_dir hnext (by simp) (by simp))
  simpa using hqd

theorem IsRooted.prune (hr : t.IsRooted) (p : Path) (levels : Nat) : IsRooted (t.prune p levels) := by
  induction levels generalizing t p with
  | zero => exact hr
  | succ levels ih =>
    unfold Tree.prune
    split
    · exact hr
    · rename_i hocc
      rw [Bool.or_eq_true, not_or] at hocc
      exact ih (hr.withoutDir hocc.2) p.dropLast

theorem delete_eq (hkey : isValidKey key = true) : t.delete key =
    match t.look (segments key) with
    | .missing => (.ok false, t)
    | .file _ => (.ok true, { t with files := t.files.filter (·.1 ≠ segments key) }.prune
        (segments key).dropLast (segments key).length)
    | .directory => (.error (failure "is a directory"), t)
    | .failed reason => (.error (failure reason), t) := by
  rewrite [delete, pathFor_eq, if_pos hkey]
  rfl

theorem dirs_delete (t : Tree) (key : String) : (t.delete key).2.dirs = t.dirs ∨
    (t.delete key).2.dirs = ({ t with files := t.files.filter (·.1 ≠ segments key) }.prune
      (segments key).dropLast (segments key).length).dirs := by
  by_cases hkey : isValidKey key = true
  · rw [delete_eq hkey]
    split
    · exact .inl rfl
    · exact .inr rfl
    · exact .inl rfl
    · exact .inl rfl
  · rw [delete, pathFor_eq, if_neg hkey]
    exact .inl rfl

theorem onWay_delete (h : t.IsSound) (key : String) : OnWay (segments key) t (t.delete key).2 where
  files := by
    intro q hq
    rw [(h.delete_spec (Prod.eta (t.delete key)).symm).2.1, if_neg hq]
  dirs := by
    intro d
    rcases t.dirs_delete key with hsame | hpruned
    · rw [hsame]
      exact .inl Iff.rfl
    · rw [hpruned]
      by_cases hd : d <+: (segments key).dropLast
      · exact .inr ((prefix_dropLast_iff (segments_ne_nil key)).mp hd)
      · exact .inl (mem_dirs_prune _ _ _ hd)

/-- A deletion keeps directories in directories. -/
theorem IsRooted.delete (hr : t.IsRooted) (key : String) : IsRooted (t.delete key).2 := by
  have hwithout : IsRooted { t with files := t.files.filter (·.1 ≠ segments key) } := hr
  have hpruned := hwithout.prune (segments key).dropLast (segments key).length
  unfold IsRooted at *
  rcases t.dirs_delete key with heq | heq
  · rwa [heq]
  · rwa [heq]

/-! ## Answers -/

section Answers

variable (hr : t.IsRooted) (h : t.IsSound) (hru : u.IsRooted) (hu : u.IsSound)
  (hfits : Fits (segments key)) (halike : AlikeAt (segments key) t u)

include hr h hru hu hfits halike

theorem look_congr : t.look (segments key) = u.look (segments key) := by
  rw [look_eq hr h (segments_ne_nil key) hfits, look_eq hru hu (segments_ne_nil key) hfits,
    halike.standing_eq]

/-- **Reading** depends on the way alone. -/
theorem get_congr : t.get key = u.get key := by
  have hlook := look_congr hr h hru hu hfits halike
  rw [get, get, pathFor_eq]
  split
  · simp only [bind, Except.bind, hlook]
  · rfl

/-- **Putting** depends on the way alone, and so does what it leaves there. -/
theorem put_congr (data : Bytes) : (t.put key data).1 = (u.put key data).1 ∧
    AlikeAt (segments key) (t.put key data).2 (u.put key data).2 := by
  have hanswer : (t.put key data).1 = (u.put key data).1 := by
    by_cases hkey : isValidKey key = true
    case neg => rw [put, put, pathFor_eq, if_neg hkey]
    have hway : Fits (segments key).dropLast := fun n hn => hfits n (List.dropLast_subset _ hn)
    have hmake : (t.makeDirs [] (segments key).dropLast).1 = (u.makeDirs [] (segments key).dropLast).1 := by
      rw [fst_makeDirs hr h rfl hway, fst_makeDirs hru hu rfl hway]
      simp only [List.nil_append, halike.blocked]
    have hdir : t.isDir (segments key) = u.isDir (segments key) := by
      rw [Bool.eq_iff_iff, isDir_iff, isDir_iff, halike.dir]
    have hplaced := (isDir_makeDirs t key).trans (hdir.trans (isDir_makeDirs u key).symm)
    rw [put_eq hkey, put_eq hkey]
    split
    · rfl
    rcases hmt : t.makeDirs [] (segments key).dropLast with ⟨e | ⟨⟩, t₁⟩ <;>
      rcases hmu : u.makeDirs [] (segments key).dropLast with ⟨e' | ⟨⟩, u₁⟩ <;>
      rw [hmt, hmu] at hmake hplaced
    · exact hmake
    · cases hmake
    · cases hmake
    · exact fst_placeFile hplaced
  refine ⟨hanswer, (onWay_put h key data).alikeAt_self (onWay_put hu key data) (segments_ne_nil key)
    halike ?_⟩
  rcases (h.put_spec (Prod.eta (t.put key data)).symm).2 with ⟨hok, hfiles⟩ | ⟨⟨e, herror⟩, hfiles⟩ <;>
    rcases (hu.put_spec (Prod.eta (u.put key data)).symm).2 with ⟨hok', hfiles'⟩ | ⟨⟨e', herror'⟩, hfiles'⟩
  · rw [hfiles, hfiles', if_pos rfl, if_pos rfl]
  · rw [hok, herror'] at hanswer
    cases hanswer
  · rw [herror, hok'] at hanswer
    cases hanswer
  · rw [hfiles, hfiles', halike.file]

/-- **Deleting** depends on the way alone, and so does what it leaves there. -/
theorem delete_congr : (t.delete key).1 = (u.delete key).1 ∧
    AlikeAt (segments key) (t.delete key).2 (u.delete key).2 := by
  constructor
  · by_cases hkey : isValidKey key = true
    · rw [delete_eq hkey, delete_eq hkey, look_congr hr h hru hu hfits halike]
      split <;> rfl
    · rw [delete, delete, pathFor_eq, if_neg hkey]
  · refine (onWay_delete h key).alikeAt_self (onWay_delete hu key) (segments_ne_nil key) halike ?_
    rw [(h.delete_spec (Prod.eta (t.delete key)).symm).2.1, if_pos rfl,
      (hu.delete_spec (Prod.eta (u.delete key)).symm).2.1, if_pos rfl]

end Answers

end Tree

end Syndication.Store
