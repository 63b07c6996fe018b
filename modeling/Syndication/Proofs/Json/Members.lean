import Mathlib.Data.List.Induction
import Syndication.Json.Members

/-!
# Proofs.Json.Members — the members of an object, in whatever order

Where no name belongs to two members of a record, the member of an object is what stands under one of
its names, wherever that is. An object that has two members under the names of one, be it the same name
or another, is not read at all; and otherwise only a key without a text keeps an object from being read.

## Contents
* `under`, `under_concat`       — what an object has under some names
* `Distinct`, `position?_eq_some_iff`, `position?_eq_none_iff`
* `Collected`, `collected_or`   — reading member by member
* `exists_of_once`, `get?_of_eq_some` — objects that are read, and what is found
* `eq_none_of_doubled`          — objects that are not
-/

namespace Syndication.Json.Members

/-- The values that an object has under some names, in the order of the object. -/
def under (aliases : List String) (ms : List (Option String × Json)) : List Json :=
  (ms.filter fun m => m.1.any aliases.contains).map (·.2)

theorem under_concat (aliases : List String) (ms : List (Option String × Json))
    (m : Option String × Json) :
    under aliases (ms ++ [m]) = under aliases ms ++ if m.1.any aliases.contains then [m.2] else [] := by
  rw [under, List.filter_append, List.map_append, under, List.filter_cons, List.filter_nil]
  cases m.1.any aliases.contains <;> rfl

theorem any_contains_iff {aliases : List String} {key : String} :
    (some key).any aliases.contains = true ↔ key ∈ aliases := by
  rw [Option.any_some, List.contains_iff_mem]

theorem under_concat_mem {aliases : List String} {key : String} (hkey : key ∈ aliases)
    (ms : List (Option String × Json)) (item : Json) :
    under aliases (ms ++ [(some key, item)]) = under aliases ms ++ [item] := by
  rw [under_concat, if_pos (any_contains_iff.mpr hkey)]

theorem under_concat_not_mem {aliases : List String} {key : String} (hkey : key ∉ aliases)
    (ms : List (Option String × Json)) (item : Json) :
    under aliases (ms ++ [(some key, item)]) = under aliases ms := by
  rw [under_concat, if_neg (any_contains_iff.not.mpr hkey), List.append_nil]

/-! ## The member that a key names -/

/-- No name belongs to two members. -/
def Distinct (names : List (List String)) : Prop :=
  names.Pairwise fun as bs => ∀ name ∈ as, name ∉ bs

instance (names : List (List String)) : Decidable (Distinct names) :=
  inferInstanceAs (Decidable (List.Pairwise _ names))

section Names

variable {names : List (List String)} (hnames : Distinct names)
include hnames

/-- A name belongs to one member. -/
theorem eq_of_mem {i k : Nat} {as bs : List String} (hi : names[i]? = some as)
    (hk : names[k]? = some bs) {key : String} (hkey : key ∈ as) (hkey' : key ∈ bs) : i = k := by
  obtain ⟨hi', rfl⟩ := List.getElem?_eq_some_iff.mp hi
  obtain ⟨hk', rfl⟩ := List.getElem?_eq_some_iff.mp hk
  by_contra hne
  rcases Nat.lt_or_gt_of_ne hne with hlt | hlt
  · exact List.pairwise_iff_getElem.mp hnames i k hi' hk' hlt key hkey hkey'
  · exact List.pairwise_iff_getElem.mp hnames k i hk' hi' hlt key hkey' hkey

theorem position?_eq_some_iff {key : String} {i : Nat} :
    position? names key = some i ↔ ∃ aliases, names[i]? = some aliases ∧ key ∈ aliases := by
  rw [position?, List.findIdx?_eq_some_iff_getElem]
  constructor
  · rintro ⟨hi, hkey, -⟩
    exact ⟨names[i], List.getElem?_eq_getElem hi, List.contains_iff_mem.mp hkey⟩
  · rintro ⟨aliases, haliases, hkey⟩
    obtain ⟨hi, rfl⟩ := List.getElem?_eq_some_iff.mp haliases
    refine ⟨hi, List.contains_iff_mem.mpr hkey, fun k hk hfirst => ?_⟩
    have hk' : k < names.length := Nat.lt_trans hk hi
    have heq := eq_of_mem hnames (List.getElem?_eq_getElem hk') haliases
      (List.contains_iff_mem.mp hfirst) hkey
    omega

omit hnames in
theorem position?_eq_none_iff {key : String} :
    position? names key = none ↔ ∀ aliases ∈ names, key ∉ aliases := by
  simp [position?, List.findIdx?_eq_none_iff]

end Names

/-! ## Reading member by member -/

/-- What was read of an object: all keys have texts, and each member is there once at most. -/
structure Collected (names : List (List String)) (ms : List (Option String × Json))
    (found : List (Option Json)) : Prop where
  length_eq : found.length = names.length
  keys : ∀ m ∈ ms, m.1.isSome = true
  members : ∀ (i : Nat) (aliases : List String), names[i]? = some aliases →
    (under aliases ms).length ≤ 1 ∧ found[i]? = some (under aliases ms).head?

/-- Why an object is not read. -/
def IsRefused (names : List (List String)) (ms : List (Option String × Json)) : Prop :=
  (∃ m ∈ ms, m.1 = none) ∨ ∃ aliases ∈ names, 2 ≤ (under aliases ms).length

theorem IsRefused.concat {names : List (List String)} {ms : List (Option String × Json)}
    (h : IsRefused names ms) (m : Option String × Json) : IsRefused names (ms ++ [m]) := by
  rcases h with ⟨m', hm', hnone⟩ | ⟨aliases, hmem, htwo⟩
  · exact .inl ⟨m', List.mem_append_left _ hm', hnone⟩
  · refine .inr ⟨aliases, hmem, ?_⟩
    rw [under_concat, List.length_append]
    omega

section Insert

variable {names : List (List String)} {ms : List (Option String × Json)} {found : List (Option Json)}
  (h : Collected names ms found) {key : String} (item : Json)
include h

theorem Collected.keys_concat : ∀ m ∈ ms ++ [(some key, item)], m.1.isSome = true := by
  intro m hm
  rcases List.mem_append.mp hm with hold | hlast
  · exact h.keys m hold
  · rw [List.mem_singleton.mp hlast]
    rfl

/-- A key that names no member is passed over. -/
theorem Collected.skip (hkey : ∀ aliases ∈ names, key ∉ aliases) :
    Collected names (ms ++ [(some key, item)]) found where
  length_eq := h.length_eq
  keys := h.keys_concat item
  members := fun i aliases haliases => by
    rw [under_concat_not_mem (hkey aliases (List.mem_of_getElem? haliases))]
    exact h.members i aliases haliases

/-- A member that was not there yet takes its place. -/
theorem Collected.place (hnames : Distinct names) {i : Nat} {aliases : List String}
    (haliases : names[i]? = some aliases) (hkey : key ∈ aliases) (hnone : under aliases ms = []) :
    Collected names (ms ++ [(some key, item)]) (found.set i (some item)) where
  length_eq := by rw [List.length_set, h.length_eq]
  keys := h.keys_concat item
  members := by
    intro k others hothers
    by_cases hik : i = k
    · subst hik
      obtain rfl : aliases = others := Option.some.inj (haliases.symm.trans hothers)
      have hi : i < found.length := by
        rw [h.length_eq]
        exact (List.getElem?_eq_some_iff.mp haliases).1
      rw [under_concat_mem hkey, hnone, List.nil_append, List.getElem?_set_self hi]
      exact ⟨Nat.le_refl 1, rfl⟩
    · have hkey' : key ∉ others := fun hmem => hik (eq_of_mem hnames haliases hothers hkey hmem)
      rw [under_concat_not_mem hkey', List.getElem?_set_ne hik]
      exact h.members k others hothers

end Insert

/-- **One more member** is collected, or is why the object is not read. -/
theorem Collected.insert {names : List (List String)} (hnames : Distinct names)
    {ms : List (Option String × Json)} {found : List (Option Json)} (h : Collected names ms found)
    (m : Option String × Json) :
    (∃ found', insert? names found m = some found' ∧ Collected names (ms ++ [m]) found') ∨
      (insert? names found m = none ∧ IsRefused names (ms ++ [m])) := by
  obtain ⟨key?, item⟩ := m
  cases key? with
  | none => exact .inr ⟨rfl, .inl ⟨_, List.mem_append_right _ (List.mem_singleton_self _), rfl⟩⟩
  | some key =>
    rw [insert?]
    cases hposition : position? names key with
    | none => exact .inl ⟨found, rfl, h.skip item (position?_eq_none_iff.mp hposition)⟩
    | some i =>
      obtain ⟨aliases, haliases, hkey⟩ := (position?_eq_some_iff hnames).mp hposition
      simp only [(h.members i aliases haliases).2]
      cases hsame : under aliases ms with
      | cons j js =>
        -- the member is there already
        refine .inr ⟨rfl, .inr ⟨aliases, List.mem_of_getElem? haliases, ?_⟩⟩
        rw [under_concat_mem hkey, hsame]
        simp
      | nil => exact .inl ⟨_, rfl, h.place item hnames haliases hkey hsame⟩

/-- **All members** are collected, or there is a reason why the object is not read. -/
theorem collected_or {names : List (List String)} (hnames : Distinct names)
    (ms : List (Option String × Json)) :
    (∃ found, ms.foldlM (insert? names) (names.map fun _ => none) = some found ∧
      Collected names ms found) ∨
    (ms.foldlM (insert? names) (names.map fun _ => none) = none ∧ IsRefused names ms) := by
  induction ms using List.reverseRecOn with
  | nil =>
    refine .inl ⟨_, rfl, List.length_map .., fun _ hm => (nomatch hm), fun i aliases haliases => ?_⟩
    exact ⟨Nat.zero_le 1, by rw [List.getElem?_map, haliases]; rfl⟩
  | append_singleton ms m ih =>
    rw [List.foldlM_append]
    rcases ih with ⟨found, hfold, hcollected⟩ | ⟨hfold, hrefused⟩
    · rw [hfold, Option.bind_eq_bind, Option.bind_some, List.foldlM_cons]
      rcases hcollected.insert hnames m with ⟨found', hinsert, hcollected'⟩ | ⟨hinsert, hrefused⟩
      · exact .inl ⟨found', by rw [hinsert]; rfl, hcollected'⟩
      · exact .inr ⟨by rw [hinsert]; rfl, hrefused⟩
    · rw [hfold]
      exact .inr ⟨rfl, hrefused.concat m⟩

/-! ## Objects that are read, and objects that are not -/

variable {names : List (List String)} {ms : List (Option String × Json)}

/-- **An object that has each member once at most** is read. -/
theorem exists_of_once (hnames : Distinct names) (hkeys : ∀ m ∈ ms, m.1.isSome = true)
    (honce : ∀ aliases ∈ names, (under aliases ms).length ≤ 1) : ∃ m, of? names (.object ms) = some m := by
  rcases collected_or hnames ms with ⟨found, hfold, -⟩ | ⟨-, hrefused⟩
  · exact ⟨⟨found⟩, by rw [of?, hfold]; rfl⟩
  · rcases hrefused with ⟨m, hm, hnone⟩ | ⟨aliases, hmem, htwo⟩
    · have hsome := hkeys m hm
      rw [hnone] at hsome
      cases hsome
    · have hle := honce aliases hmem
      omega

/-- **The member of an object that is read** is what stands under one of its names, and nothing else
does. -/
theorem get?_of_eq_some (hnames : Distinct names) {m : Members}
    (h : of? names (.object ms) = some m) {i : Nat} {aliases : List String}
    (hi : names[i]? = some aliases) :
    (under aliases ms).length ≤ 1 ∧ m.get? i = (under aliases ms).head? := by
  rcases collected_or hnames ms with ⟨found, hfold, hcollected⟩ | ⟨hfold, -⟩
  · rw [of?, hfold] at h
    obtain rfl := Option.some.inj h
    obtain ⟨honce, hfound⟩ := hcollected.members i aliases hi
    refine ⟨honce, ?_⟩
    rw [get?, hfound]
    rfl
  · rw [of?, hfold] at h
    cases h

/-- **An object that has a member twice**, under whatever two of its names, is not read. -/
theorem eq_none_of_doubled (hnames : Distinct names) {aliases : List String}
    (haliases : aliases ∈ names) (htwo : 2 ≤ (under aliases ms).length) :
    of? names (.object ms) = none := by
  obtain ⟨i, hi⟩ := List.getElem?_of_mem haliases
  cases hof : of? names (.object ms) with
  | none => rfl
  | some m =>
    have hle := (get?_of_eq_some hnames hof hi).1
    omega

end Syndication.Json.Members
