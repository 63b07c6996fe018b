import Mathlib.Data.List.Infix
import Mathlib.Data.List.Nodup
import Syndication.Trigger.Rendering

/-!
# Proofs.Trigger.Rendering — filling in a template at once

Placeholders are filled in one kind after the other, over a text that already holds values. Meant is one
pass over the template, in which values are copied and never read. The two come to the same unless a value
brings a placeholder into the text, whole or together with what stands beside it: then the placeholder is
filled in as if it were one of the template.

Placeholders do not overlap, neither each other nor themselves. So a placeholder of the template is there
until its turn comes, whatever is filled in before, and it is enough to count: nothing was brought in if
there are no more placeholders of a kind than the template has.

## Contents
* `substituteFrom`, `renderAtOnce`   — one pass
* `occurrences`                      — how often a text is found in another
* `Separate`, `Disjoint`             — texts that do not overlap
* `substitute_concat`                — one kind more
* `BringsNone`, `fillIn_eq`          — kind after kind, where no placeholder is brought in
* `Plain`, `bringsNone_of_plain`     — values that bring none
* `disjoint_placeholders`, `renderTemplate_eq_renderAtOnce`
-/

namespace Syndication.Rendering

/-! ## One pass -/

/-- Placeholders and their values. -/
abbrev Table := List (List Char × List Char)

/-- Every placeholder of a table replaced by its value, in one pass from left to right. `skip` characters
of a placeholder that has just been replaced are still to be passed over. -/
def substituteFrom (table : Table) : Nat → List Char → List Char
  | _, [] => []
  | skip + 1, _ :: rest => substituteFrom table skip rest
  | 0, c :: rest =>
    match table.find? (·.1.isPrefixOf (c :: rest)) with
    | some (pattern, value) => value ++ substituteFrom table (pattern.length - 1) rest
    | none => c :: substituteFrom table 0 rest

/-- The placeholders with the values of an event, as characters. -/
def tableOf (placeholders : List (String × String)) : Table :=
  placeholders.map fun (pattern, value) => (pattern.toList, value.toList)

/-- **A template filled in at once.** -/
def renderAtOnce (template : String) (e : TriggerEvent) : String :=
  String.ofList (substituteFrom (tableOf e.placeholders) 0 template.toList)

variable {table : Table} {pattern value text rest : List Char} {c : Char}

theorem substituteFrom_skip (table : Table) (skip : Nat) (text : List Char) :
    substituteFrom table skip text = substituteFrom table 0 (text.drop skip) := by
  induction skip generalizing text with
  | zero => rfl
  | succ skip ih =>
    cases text with
    | nil => rfl
    | cons c rest => exact ih rest

/-- Where a placeholder stands, its value is written. -/
theorem substitute_of_find? (hne : pattern ≠ [])
    (h : table.find? (·.1.isPrefixOf (pattern ++ rest)) = some (pattern, value)) :
    substituteFrom table 0 (pattern ++ rest) = value ++ substituteFrom table 0 rest := by
  obtain ⟨c, cs, rfl⟩ := List.exists_cons_of_ne_nil hne
  rw [List.cons_append] at h ⊢
  rw [substituteFrom, h]
  simp [substituteFrom_skip]

theorem substitute_cons_of_none (h : table.find? (·.1.isPrefixOf (c :: rest)) = none) :
    substituteFrom table 0 (c :: rest) = c :: substituteFrom table 0 rest := by
  rw [substituteFrom, h]

/-- Where no placeholder begins, text is copied. -/
theorem substitute_append (text : List Char)
    (h : ∀ i < text.length, ∀ entry ∈ table, ¬ entry.1 <+: text.drop i ++ rest) :
    substituteFrom table 0 (text ++ rest) = text ++ substituteFrom table 0 rest := by
  induction text with
  | nil => rfl
  | cons c cs ih =>
    have hnone : table.find? (·.1.isPrefixOf (c :: (cs ++ rest))) = none := by
      rw [List.find?_eq_none]
      intro entry hentry
      simpa using h 0 (Nat.succ_pos _) entry hentry
    rw [List.cons_append, substitute_cons_of_none hnone, ih, List.cons_append]
    exact fun i hi entry hentry => h (i + 1) (Nat.succ_lt_succ hi) entry hentry

/-- What a pass comes to, piece by piece: a placeholder of the first kinds is replaced, or else one of the
further kinds, or a character is copied. -/
theorem pass_induction {before after : Table} {motive : List Char → Prop}
    (hfilled : ∀ entry ∈ before ++ after, entry.1 ≠ [])
    (nil : motive [])
    (first : ∀ entry ∈ before, ∀ rest,
      before.find? (·.1.isPrefixOf (entry.1 ++ rest)) = some entry →
      motive rest → motive (entry.1 ++ rest))
    (further : ∀ entry ∈ after, ∀ rest,
      before.find? (·.1.isPrefixOf (entry.1 ++ rest)) = none →
      after.find? (·.1.isPrefixOf (entry.1 ++ rest)) = some entry →
      motive rest → motive (entry.1 ++ rest))
    (copied : ∀ c rest, before.find? (·.1.isPrefixOf (c :: rest)) = none →
      after.find? (·.1.isPrefixOf (c :: rest)) = none → motive rest → motive (c :: rest))
    (text : List Char) : motive text := by
  induction hlength : text.length using Nat.strong_induction_on generalizing text with
  | _ n ih =>
  subst hlength
  cases text with
  | nil => exact nil
  | cons c rest =>
    -- no placeholder is empty, so what stands behind one is shorter
    have hbehind : ∀ entry ∈ before ++ after, entry.1 <+: c :: rest →
        ∃ behind, entry.1 ++ behind = c :: rest ∧ motive behind := by
      rintro entry hentry ⟨behind, hbehind⟩
      have hpos := List.length_pos_iff.mpr (hfilled entry hentry)
      have hlength := congrArg List.length hbehind
      rw [List.length_append] at hlength
      exact ⟨behind, hbehind, ih _ (by omega) behind rfl⟩
    cases hfirst : before.find? (·.1.isPrefixOf (c :: rest)) with
    | some entry =>
      have hentry := List.mem_of_find?_eq_some hfirst
      obtain ⟨behind, heq, hmotive⟩ := hbehind entry (List.mem_append_left _ hentry)
        (by simpa using List.find?_some hfirst)
      rw [← heq] at hfirst ⊢
      exact first entry hentry behind hfirst hmotive
    | none =>
      cases hfurther : after.find? (·.1.isPrefixOf (c :: rest)) with
      | some entry =>
        have hentry := List.mem_of_find?_eq_some hfurther
        obtain ⟨behind, heq, hmotive⟩ := hbehind entry (List.mem_append_right _ hentry)
          (by simpa using List.find?_some hfurther)
        rw [← heq] at hfirst hfurther ⊢
        exact further entry hentry behind hfirst hfurther hmotive
      | none => exact copied c rest hfirst hfurther (ih _ (Nat.lt_succ_self _) rest rfl)

/-- Replacing one text is a pass with a single placeholder. -/
theorem replaceFrom_eq (hne : pattern ≠ []) (skip : Nat) (text : List Char) :
    replaceFrom pattern value skip text = substituteFrom [(pattern, value)] skip text := by
  have hfilled : pattern.isEmpty = false := by simpa using hne
  induction text generalizing skip with
  | nil => cases skip <;> rfl
  | cons c rest ih =>
    cases skip with
    | succ skip => exact ih skip
    | zero =>
      rw [replaceFrom, substituteFrom, hfilled, List.find?_cons]
      cases pattern.isPrefixOf (c :: rest) with
      | true => simp [ih]
      | false => simp [ih]

/-! ## Occurrences -/

/-- How often a text is found in another. -/
def occurrences (pattern : List Char) : List Char → Nat
  | [] => 0
  | c :: rest => (if pattern.isPrefixOf (c :: rest) then 1 else 0) + occurrences pattern rest

theorem occurrences_append_le (pattern text rest : List Char) :
    occurrences pattern rest ≤ occurrences pattern (text ++ rest) := by
  induction text with
  | nil => exact Nat.le_refl _
  | cons c cs ih => exact Nat.le_trans ih (Nat.le_add_left _ _)

/-- Text that begins no occurrence adds none, and the other way round. -/
theorem occurrences_append_eq_iff (pattern text rest : List Char) :
    occurrences pattern (text ++ rest) = occurrences pattern rest ↔
      ∀ i < text.length, ¬ pattern <+: text.drop i ++ rest := by
  induction text with
  | nil => simp
  | cons c cs ih =>
    have hle := occurrences_append_le pattern cs rest
    rw [List.cons_append, occurrences]
    constructor
    · intro h i hi
      cases i with
      | zero =>
        intro hbegins
        have hfound : pattern.isPrefixOf (c :: (cs ++ rest)) = true := by simpa using hbegins
        rw [if_pos hfound] at h
        omega
      | succ i => exact ih.mp (by omega) i (Nat.lt_of_succ_lt_succ hi)
    · intro h
      have hfirst : pattern.isPrefixOf (c :: (cs ++ rest)) = false := by
        rw [Bool.eq_false_iff, Ne, List.isPrefixOf_iff_prefix]
        exact h 0 (Nat.succ_pos _)
      rw [hfirst, ih.mpr fun i hi => h (i + 1) (Nat.succ_lt_succ hi)]
      simp

/-! ## Texts that do not overlap -/

/-- No occurrence of `p` begins in an occurrence of `q`, whatever stands behind it, unless it is the
same. -/
def Separate (p q : List Char) : Prop :=
  ∀ i < q.length, (i = 0 → p ≠ q) → ¬ p <+: q.drop i ∧ ¬ q.drop i <+: p

instance (p q : List Char) : Decidable (Separate p q) :=
  inferInstanceAs (Decidable (∀ i < q.length, (i = 0 → p ≠ q) → ¬ p <+: q.drop i ∧ ¬ q.drop i <+: p))

theorem Separate.not_begins {p q : List Char} (h : Separate p q) {i : Nat} (hi : i < q.length)
    (hother : i = 0 → p ≠ q) (rest : List Char) : ¬ p <+: q.drop i ++ rest := by
  intro hbegins
  obtain ⟨hshort, hlong⟩ := h i hi hother
  rcases List.prefix_or_prefix_of_prefix hbegins (List.prefix_append (q.drop i) rest) with h | h
  · exact hshort h
  · exact hlong h

/-- Another text adds no occurrence. -/
theorem Separate.occurrences_append {p q : List Char} (h : Separate p q) (hne : p ≠ q)
    (rest : List Char) : occurrences p (q ++ rest) = occurrences p rest :=
  (occurrences_append_eq_iff p q rest).mpr fun _ hi => h.not_begins hi (fun _ => hne) rest

/-- The text itself adds one. -/
theorem Separate.occurrences_self {p : List Char} (h : Separate p p) (hne : p ≠ [])
    (rest : List Char) : occurrences p (p ++ rest) = occurrences p rest + 1 := by
  obtain ⟨c, cs, rfl⟩ := List.exists_cons_of_ne_nil hne
  have hfirst : (c :: cs).isPrefixOf (c :: (cs ++ rest)) = true := by simp
  have hrest : occurrences (c :: cs) (cs ++ rest) = occurrences (c :: cs) rest := by
    rw [occurrences_append_eq_iff]
    intro i hi
    exact h.not_begins (i := i + 1) (Nat.succ_lt_succ hi) (by omega) rest
  rw [List.cons_append, occurrences, if_pos hfirst, hrest, Nat.add_comm]

/-- Texts that do not overlap. -/
structure Disjoint (patterns : List (List Char)) : Prop where
  filled : ∀ p ∈ patterns, p ≠ []
  separate : ∀ p ∈ patterns, ∀ q ∈ patterns, Separate p q

/-- A placeholder that is none of the table is copied. -/
theorem substitute_other (h : ∀ entry ∈ table, entry.1 ≠ pattern ∧ Separate entry.1 pattern)
    (rest : List Char) :
    substituteFrom table 0 (pattern ++ rest) = pattern ++ substituteFrom table 0 rest := by
  apply substitute_append
  intro i hi entry hentry
  exact (h entry hentry).2.not_begins hi (fun _ => (h entry hentry).1) rest

/-! ## One kind more -/

section Concat

variable (hdisjoint : Disjoint ((table ++ [(pattern, value)]).map (·.1)))
  (hnew : pattern ∉ table.map (·.1))
include hdisjoint hnew

/-- **One kind more.** A pass keeps what it does not replace. If it brings no more occurrences of a further
placeholder, then replacing these behind it is the same as replacing them on the way. -/
theorem substitute_concat (text : List Char) :
    occurrences pattern text ≤ occurrences pattern (substituteFrom table 0 text) ∧
      (occurrences pattern (substituteFrom table 0 text) = occurrences pattern text →
        substituteFrom [(pattern, value)] 0 (substituteFrom table 0 text) =
          substituteFrom (table ++ [(pattern, value)]) 0 text) := by
  have hpattern : pattern ∈ (table ++ [(pattern, value)]).map (·.1) := by simp
  have hknown : ∀ entry ∈ table ++ [(pattern, value)],
      entry.1 ∈ (table ++ [(pattern, value)]).map (·.1) := fun _ hentry => List.mem_map_of_mem hentry
  have hother : ∀ entry ∈ table, pattern ≠ entry.1 := by
    rintro entry hentry rfl
    exact hnew (List.mem_map_of_mem hentry)
  have hfilled : ∀ entry ∈ table ++ [(pattern, value)], entry.1 ≠ [] := fun entry hentry =>
    hdisjoint.filled entry.1 (hknown entry hentry)
  induction text using pass_induction hfilled with
  | nil => exact ⟨Nat.le_refl _, fun _ => rfl⟩
  | first entry hentry rest hfind ih =>
    -- another placeholder stands here, and its value is written
    obtain ⟨hle, heq⟩ := ih
    have hmem := List.mem_append_left [(pattern, value)] hentry
    have hall : (table ++ [(pattern, value)]).find? (·.1.isPrefixOf (entry.1 ++ rest)) = some entry := by
      rw [List.find?_append, hfind, Option.some_or]
    have hskip := (hdisjoint.separate pattern hpattern _ (hknown _ hmem)).occurrences_append
      (hother _ hentry) rest
    have hgrows := occurrences_append_le pattern entry.2 (substituteFrom table 0 rest)
    rw [substitute_of_find? (hfilled _ hmem) hall, substitute_of_find? (hfilled _ hmem) hfind, hskip]
    refine ⟨Nat.le_trans hle hgrows, fun hsame => ?_⟩
    have hnone := (occurrences_append_eq_iff pattern entry.2 (substituteFrom table 0 rest)).mp
      (by omega)
    rw [← heq (by omega)]
    exact substitute_append _ fun i hi entry hentry => List.mem_singleton.mp hentry ▸ hnone i hi
  | further entry hentry rest hfind hlast ih =>
    -- the further placeholder stands here: the pass leaves it, and it is replaced behind it
    obtain ⟨hle, heq⟩ := ih
    obtain rfl := List.mem_singleton.mp hentry
    have hne := hdisjoint.filled pattern hpattern
    have hself := hdisjoint.separate pattern hpattern pattern hpattern
    have hall : (table ++ [(pattern, value)]).find? (·.1.isPrefixOf (pattern ++ rest)) =
        some (pattern, value) := by
      rw [List.find?_append, hfind, Option.none_or, hlast]
    have hthere : [(pattern, value)].find? (·.1.isPrefixOf (pattern ++ substituteFrom table 0 rest)) =
        some (pattern, value) := by simp
    have hleft : ∀ other ∈ table, other.1 ≠ pattern ∧ Separate other.1 pattern :=
      fun other hmem => ⟨(hother other hmem).symm,
        hdisjoint.separate _ (hknown other (List.mem_append_left _ hmem)) pattern hpattern⟩
    rw [substitute_of_find? hne hall, substitute_other hleft, hself.occurrences_self hne,
      hself.occurrences_self hne, substitute_of_find? hne hthere]
    exact ⟨Nat.succ_le_succ hle, fun hsame => by rw [heq (Nat.succ.inj hsame)]⟩
  | copied c rest hfind hlast ih =>
    obtain ⟨hle, heq⟩ := ih
    have hall : (table ++ [(pattern, value)]).find? (·.1.isPrefixOf (c :: rest)) = none := by
      rw [List.find?_append, hfind, Option.none_or, hlast]
    have hfirst : pattern.isPrefixOf (c :: rest) = false :=
      Bool.eq_false_iff.mpr (List.find?_eq_none.mp hlast _ (List.mem_singleton_self _))
    rw [substitute_cons_of_none hall, substitute_cons_of_none hfind, occurrences, occurrences, hfirst]
    simp only [Bool.false_eq_true, if_false, Nat.zero_add]
    refine ⟨Nat.le_trans hle (Nat.le_add_left _ _), fun hsame => ?_⟩
    -- one occurrence more would make the count too high
    split at hsame
    · omega
    · rename_i hcopied
      have hnone : [(pattern, value)].find? (·.1.isPrefixOf (c :: substituteFrom table 0 rest)) = none := by
        simpa using hcopied
      rw [substitute_cons_of_none hnone, heq (by omega)]

end Concat

/-! ## Kind after kind -/

/-- A text with the placeholders of a table filled in, one kind after the other. -/
def fillIn (table : Table) (text : List Char) : List Char :=
  table.foldl (fun text (pattern, value) => replaceFrom pattern value 0 text) text

theorem fillIn_concat (table : Table) (entry : List Char × List Char) (text : List Char) :
    fillIn (table ++ [entry]) text = replaceFrom entry.1 entry.2 0 (fillIn table text) := by
  simp [fillIn]

/-- The values bring no placeholder: when its turn comes, each is found as often as in the text they are
filled into. -/
def BringsNone (table : Table) (text : List Char) : Prop :=
  ∀ i (hi : i < table.length),
    occurrences table[i].1 (fillIn (table.take i) text) = occurrences table[i].1 text

instance (table : Table) (text : List Char) : Decidable (BringsNone table text) :=
  inferInstanceAs (Decidable (∀ i (hi : i < table.length),
    occurrences table[i].1 (fillIn (table.take i) text) = occurrences table[i].1 text))

theorem Disjoint.of_subset {ps qs : List (List Char)} (h : Disjoint qs) (hsub : ∀ p ∈ ps, p ∈ qs) :
    Disjoint ps where
  filled p hp := h.filled p (hsub p hp)
  separate p hp q hq := h.separate p (hsub p hp) q (hsub q hq)

theorem BringsNone.init {entry : List Char × List Char}
    (h : BringsNone (table ++ [entry]) text) : BringsNone table text := by
  intro i hi
  have := h i (by rw [List.length_append]; omega)
  rwa [List.getElem_append_left hi, List.take_append_of_le_length (Nat.le_of_lt hi)] at this

theorem BringsNone.last {entry : List Char × List Char} (h : BringsNone (table ++ [entry]) text) :
    occurrences entry.1 (fillIn table text) = occurrences entry.1 text := by
  have := h table.length (by simp)
  simpa using this

/-- Kind after kind is one pass, if nothing is brought in. By induction on the kinds filled in. -/
theorem fillIn_eq (hdisjoint : Disjoint (table.map (·.1))) (hnodup : (table.map (·.1)).Nodup)
    (hnone : BringsNone table text) : fillIn table text = substituteFrom table 0 text := by
  induction table using List.reverseRecOn with
  | nil =>
    show text = _
    have hcopy : substituteFrom [] 0 (text ++ []) = text ++ substituteFrom [] 0 [] :=
      substitute_append text (by simp)
    simpa [substituteFrom] using hcopy.symm
  | append_singleton table entry ih =>
    have hbefore : Disjoint (table.map (·.1)) := hdisjoint.of_subset fun p hp => by
      rw [List.map_append]
      exact List.mem_append_left _ hp
    rw [List.map_append, List.nodup_append] at hnodup
    obtain ⟨hnodup, -, hapart⟩ := hnodup
    have hnew : entry.1 ∉ table.map (·.1) := fun hmem => hapart _ hmem entry.1 (by simp) rfl
    have hpass := ih hbefore hnodup hnone.init
    have hsame := hnone.last
    rw [hpass] at hsame
    rw [fillIn_concat, hpass, replaceFrom_eq (hdisjoint.filled entry.1 (by simp))]
    exact (substitute_concat hdisjoint hnew text).2 hsame

/-! ## Plain values -/

/-- The values hold no opening brace, and in the text two of them begin a placeholder. -/
structure Plain (table : Table) (text : List Char) : Prop where
  values : ∀ entry ∈ table, '\x7b' ∉ entry.2
  text : ∀ behind, behind <:+ text → ['\x7b', '\x7b'] <+: behind →
    ∃ entry ∈ table, entry.1 <+: behind

/-- A pass puts no brace in front of a text that begins with none. -/
theorem open_of_substitute (hopen : ∀ entry ∈ table, ['\x7b', '\x7b'] <+: entry.1)
    (h : ['\x7b'] <+: substituteFrom table 0 text) : ['\x7b'] <+: text := by
  cases text with
  | nil => simp [substituteFrom] at h
  | cons d rest =>
    by_contra hd
    have hcopy : table.find? (·.1.isPrefixOf (d :: rest)) = none := by
      refine List.find?_eq_none.mpr fun entry hentry hbegins => hd ?_
      have hbegins := (hopen entry hentry).trans (List.isPrefixOf_iff_prefix.mp hbegins)
      exact List.cons_prefix_cons.mpr ⟨(List.cons_prefix_cons.mp hbegins).1, List.nil_prefix⟩
    rw [substitute_cons_of_none hcopy] at h
    exact hd (List.cons_prefix_cons.mpr ⟨(List.cons_prefix_cons.mp h).1, List.nil_prefix⟩)

/-- Two braces where a character is copied have stood there before. -/
theorem twoOpen_of_copied (hopen : ∀ entry ∈ table, ['\x7b', '\x7b'] <+: entry.1)
    (h : ['\x7b', '\x7b'] <+: c :: substituteFrom table 0 rest) : ['\x7b', '\x7b'] <+: c :: rest := by
  obtain ⟨hfirst, hsecond⟩ := List.cons_prefix_cons.mp h
  exact List.cons_prefix_cons.mpr ⟨hfirst, open_of_substitute hopen hsecond⟩

/-- A value without a brace begins no placeholder. -/
theorem occurrences_append_of_not_mem (hopen : ['\x7b'] <+: pattern) (hvalue : '\x7b' ∉ value)
    (rest : List Char) : occurrences pattern (value ++ rest) = occurrences pattern rest := by
  rw [occurrences_append_eq_iff]
  intro i hi hbegins
  have hbrace := hopen.trans hbegins
  rw [List.drop_eq_getElem_cons hi, List.cons_append] at hbrace
  have hhere := (List.cons_prefix_cons.mp hbrace).1
  exact hvalue (hhere ▸ List.getElem_mem hi)

/-- Such values bring no placeholder into such a text. -/
theorem Plain.occurrences_eq {before after : Table} {entry : List Char × List Char}
    (h : Plain (before ++ after) text) (hdisjoint : Disjoint ((before ++ after).map (·.1)))
    (hopen : ∀ entry ∈ before ++ after, ['\x7b', '\x7b'] <+: entry.1)
    (hentry : entry ∈ after) (hnew : entry.1 ∉ before.map (·.1)) :
    occurrences entry.1 (substituteFrom before 0 text) = occurrences entry.1 text := by
  have hknown : ∀ other ∈ before ++ after, other.1 ∈ (before ++ after).map (·.1) :=
    fun _ hother => List.mem_map_of_mem hother
  have hmem : entry ∈ before ++ after := List.mem_append_right _ hentry
  have hfilled : ∀ other ∈ before ++ after, other.1 ≠ [] := fun other hother =>
    hdisjoint.filled other.1 (hknown other hother)
  have hapart : ∀ other ∈ before ++ after, Separate entry.1 other.1 := fun other hother =>
    hdisjoint.separate _ (hknown _ hmem) _ (hknown _ hother)
  obtain ⟨hvalues, htext⟩ := h
  induction text using pass_induction hfilled with
  | nil => rfl
  | first other hbefore rest hfind ih =>
    have hother := List.mem_append_left after hbefore
    have ih := ih fun behind hbehind => htext behind (hbehind.trans (List.suffix_append _ _))
    have hne : entry.1 ≠ other.1 := fun heq => hnew (heq ▸ List.mem_map_of_mem hbefore)
    have hbrace : ['\x7b'] <+: entry.1 :=
      (List.cons_prefix_cons.mpr ⟨rfl, List.nil_prefix⟩).trans (hopen entry hmem)
    rw [substitute_of_find? (hfilled _ hother) hfind, (hapart _ hother).occurrences_append hne, ← ih,
      occurrences_append_of_not_mem hbrace (hvalues other hother)]
  | further other hafter rest hfind _ ih =>
    have hother := List.mem_append_right before hafter
    have ih := ih fun behind hbehind => htext behind (hbehind.trans (List.suffix_append _ _))
    have hleft : ∀ known ∈ before, known.1 ≠ other.1 ∧ Separate known.1 other.1 := by
      intro known hbefore
      refine ⟨?_, hdisjoint.separate _ (hknown _ (List.mem_append_left _ hbefore)) _ (hknown _ hother)⟩
      rintro heq
      simpa [heq] using List.find?_eq_none.mp hfind known hbefore
    rw [substitute_other hleft]
    by_cases heq : entry.1 = other.1
    · have hself := hapart _ hmem
      have hne := hfilled _ hmem
      rw [← heq, hself.occurrences_self hne, hself.occurrences_self hne, ih]
    · rw [(hapart _ hother).occurrences_append heq, (hapart _ hother).occurrences_append heq, ih]
  | copied c rest hfind hlast ih =>
    have ih := ih fun behind hbehind => htext behind (hbehind.trans (List.suffix_cons c rest))
    have hfirst : entry.1.isPrefixOf (c :: rest) = false :=
      Bool.eq_false_iff.mpr (List.find?_eq_none.mp hlast entry hentry)
    have hcopied : entry.1.isPrefixOf (c :: substituteFrom before 0 rest) = false := by
      rw [Bool.eq_false_iff, Ne, List.isPrefixOf_iff_prefix]
      intro hbegins
      -- two braces that are copied have stood in the text, so a placeholder stands there
      have htwo := twoOpen_of_copied (fun known hbefore => hopen known (List.mem_append_left _ hbefore))
        ((hopen entry hmem).trans hbegins)
      obtain ⟨known, hmem, hknown⟩ := htext _ List.suffix_rfl htwo
      have hnone : (before ++ after).find? (·.1.isPrefixOf (c :: rest)) = none := by
        rw [List.find?_append, hfind, Option.none_or, hlast]
      exact List.find?_eq_none.mp hnone known hmem (by simpa using hknown)
    rw [substitute_cons_of_none hfind, occurrences, occurrences, hfirst, hcopied, ih]

/-- **Plain values bring no placeholder.** -/
theorem Plain.bringsNone (h : Plain table text) (hdisjoint : Disjoint (table.map (·.1)))
    (hnodup : (table.map (·.1)).Nodup)
    (hopen : ∀ entry ∈ table, ['\x7b', '\x7b'] <+: entry.1) : BringsNone table text := by
  intro i hi
  induction i using Nat.strong_induction_on with
  | _ i ih =>
  have hsplit : table = table.take i ++ table.drop i := (List.take_append_drop i table).symm
  have hbefore : BringsNone (table.take i) text := by
    intro j hj
    rw [List.length_take] at hj
    rw [List.getElem_take, List.take_take, Nat.min_eq_left (by omega)]
    exact ih j (by omega) (by omega)
  have hfewer : ∀ p ∈ (table.take i).map (·.1), p ∈ table.map (·.1) := by
    rw [List.map_take]
    exact fun _ => List.mem_of_mem_take
  have hnew : table[i].1 ∉ (table.take i).map (·.1) := by
    intro hmem
    rw [List.map_take] at hmem
    obtain ⟨j, hj, heq⟩ := List.mem_take_iff_getElem.mp hmem
    have hlength : (table.map (·.1)).length = table.length := List.length_map _
    have hsame : (table.map (·.1))[j] = (table.map (·.1))[i] := heq.trans (List.getElem_map _).symm
    have := (List.Nodup.getElem_inj_iff hnodup).mp hsame
    omega
  rw [fillIn_eq (hdisjoint.of_subset hfewer) ?_ hbefore]
  · rw [hsplit] at h hdisjoint hopen
    refine h.occurrences_eq hdisjoint hopen ?_ hnew
    rw [List.drop_eq_getElem_cons hi]
    exact List.mem_cons_self
  · rw [List.map_take]
    exact hnodup.sublist (List.take_sublist _ _)

/-! ## The placeholders of a template -/

theorem map_fst_tableOf (e : TriggerEvent) :
    (tableOf e.placeholders).map (·.1) =
      ["\x7b\x7baccount\x7d\x7d".toList, "\x7b\x7btitle\x7d\x7d".toList,
        "\x7b\x7bcategory\x7d\x7d".toList, "\x7b\x7burl\x7d\x7d".toList,
        "\x7b\x7bkind\x7d\x7d".toList] :=
  rfl

/-- **Placeholders do not overlap.** -/
theorem disjoint_placeholders (e : TriggerEvent) : Disjoint ((tableOf e.placeholders).map (·.1)) := by
  rw [map_fst_tableOf]
  constructor <;> decide +kernel

theorem nodup_placeholders (e : TriggerEvent) : ((tableOf e.placeholders).map (·.1)).Nodup := by
  rw [map_fst_tableOf]
  decide +kernel

theorem toList_renderTemplate (template : String) (e : TriggerEvent) :
    (renderTemplate template e).toList = fillIn (tableOf e.placeholders) template.toList := by
  rw [renderTemplate, fillIn, tableOf, List.foldl_map]
  induction e.placeholders generalizing template with
  | nil => rfl
  | cons entry rest ih =>
    rw [List.foldl_cons, List.foldl_cons, ih]
    simp only [replaceAll, String.toList_ofList]

theorem placeholders_open (e : TriggerEvent) :
    ∀ entry ∈ tableOf e.placeholders, ['\x7b', '\x7b'] <+: entry.1 := by
  simp only [tableOf, TriggerEvent.placeholders, List.map_cons, List.map_nil, List.forall_mem_cons]
  decide +kernel

/-- **Rendering is one pass.** Unless a value brings a placeholder into the text, a template is filled in
as if all its placeholders were replaced at once. -/
theorem renderTemplate_eq_renderAtOnce (template : String) (e : TriggerEvent)
    (h : BringsNone (tableOf e.placeholders) template.toList) :
    renderTemplate template e = renderAtOnce template e := by
  have hpass := fillIn_eq (disjoint_placeholders e) (nodup_placeholders e) h
  rw [← toList_renderTemplate] at hpass
  rw [renderAtOnce, ← hpass, String.ofList_toList]

/-- In particular with values that hold no brace, in a template whose double braces are placeholders. -/
theorem bringsNone_of_plain (template : String) (e : TriggerEvent)
    (h : Plain (tableOf e.placeholders) template.toList) :
    BringsNone (tableOf e.placeholders) template.toList :=
  h.bringsNone (disjoint_placeholders e) (nodup_placeholders e) (placeholders_open e)

/-- A stream with a given name of its account and a given title. -/
def eventNamed (name title : String) : TriggerEvent where
  source := "twitch"
  messageId := "m1"
  accountType := "twitch"
  accountId := "1337"
  accountName := name
  kind := "stream.online"
  title := some title
  occurredAt := ⟨1704067200, 0⟩

theorem renderTemplate_eq_renderAtOnce_live :
    BringsNone (tableOf (eventNamed "Ada" "\x7bNews\x7d").placeholders)
        "\x7b\x7baccount\x7d\x7d: \x7b\x7btitle\x7d\x7d".toList ∧
      renderTemplate "\x7b\x7baccount\x7d\x7d: \x7b\x7btitle\x7d\x7d" (eventNamed "Ada" "\x7bNews\x7d") =
        renderAtOnce "\x7b\x7baccount\x7d\x7d: \x7b\x7btitle\x7d\x7d" (eventNamed "Ada" "\x7bNews\x7d") :=
  have h : BringsNone (tableOf (eventNamed "Ada" "\x7bNews\x7d").placeholders)
      "\x7b\x7baccount\x7d\x7d: \x7b\x7btitle\x7d\x7d".toList := by decide +kernel
  ⟨h, renderTemplate_eq_renderAtOnce _ _ h⟩

/-- An account named like a placeholder: the name is replaced by the title. -/
theorem renderTemplate_twice :
    renderTemplate "\x7b\x7baccount\x7d\x7d" (eventNamed "\x7b\x7btitle\x7d\x7d" "News") = "News" ∧
      renderAtOnce "\x7b\x7baccount\x7d\x7d" (eventNamed "\x7b\x7btitle\x7d\x7d" "News") =
        "\x7b\x7btitle\x7d\x7d" := by
  decide +kernel

end Syndication.Rendering
