import Syndication.Text.Ascii

/-!
# Proofs.Text.Pieces — beginnings and pieces of texts

A text begins with another exactly when something can be appended to the other that gives it. The
pieces of a text between separators give the text back when they are joined, so two texts with the
same pieces are one.

## Contents
* `dropStart?_eq_some_iff`, `startsWith_iff`, `startsWith_iff_prefix`
* `split_append`, `split_eq_singleton`       — pieces of a text with a separator, and of one without
* `mem_toList_iff`                           — the pieces hold what the text holds
* `joined_append`                            — pieces joined, and more pieces
* `joined_split`, `split_injective`          — pieces give the text back
-/

namespace Syndication.Text

/-! ## Beginnings -/

theorem dropStartChars?_eq_some_iff {start cs rest : List Char} :
    dropStartChars? start cs = some rest ↔ cs = start ++ rest := by
  induction start generalizing cs with
  | nil => simp [dropStartChars?]
  | cons p ps ih =>
    cases cs with
    | nil => simp [dropStartChars?]
    | cons c cs =>
      unfold dropStartChars?
      split
      · rename_i hpc
        rw [ih, hpc, List.cons_append, List.cons.injEq]
        simp
      · rename_i hpc
        simp [Ne.symm hpc]

theorem dropStart?_eq_some_iff {start s rest : String} :
    dropStart? start s = some rest ↔ s = start ++ rest := by
  rw [dropStart?, Option.map_eq_some_iff]
  constructor
  · rintro ⟨cs, hcs, rfl⟩
    rw [dropStartChars?_eq_some_iff] at hcs
    exact String.toList_inj.mp (by simp [hcs])
  · rintro rfl
    exact ⟨rest.toList, dropStartChars?_eq_some_iff.mpr (by simp), by simp⟩

/-- A text begins with `start` exactly when it is `start` and something behind it. -/
theorem startsWith_iff {s start : String} : startsWith s start = true ↔ ∃ rest, s = start ++ rest := by
  rw [startsWith, Option.isSome_iff_exists]
  exact exists_congr fun rest => dropStart?_eq_some_iff

theorem startsWith_iff_prefix {s start : String} :
    startsWith s start = true ↔ start.toList <+: s.toList := by
  rw [startsWith_iff]
  constructor
  · rintro ⟨rest, rfl⟩
    exact ⟨rest.toList, by simp⟩
  · rintro ⟨rest, hrest⟩
    exact ⟨String.ofList rest, String.toList_inj.mp (by simp [hrest])⟩

@[simp] theorem startsWith_append (start rest : String) : startsWith (start ++ rest) start = true :=
  startsWith_iff.mpr ⟨rest, rfl⟩

/-! ## Pieces -/

theorem splitChars_ne_nil (sep : Char) (cs : List Char) : splitChars sep cs ≠ [] := by
  cases cs with
  | nil => simp [splitChars]
  | cons c cs =>
    unfold splitChars
    split
    · simp
    · split <;> simp

theorem splitChars_append (sep : Char) (as bs : List Char) :
    splitChars sep (as ++ sep :: bs) = splitChars sep as ++ splitChars sep bs := by
  induction as with
  | nil => simp [splitChars]
  | cons a as ih =>
    rw [List.cons_append, splitChars, splitChars]
    split
    · rw [ih, List.cons_append]
    · rw [ih]
      obtain ⟨piece, rest, hpieces⟩ := List.exists_cons_of_ne_nil (splitChars_ne_nil sep as)
      simp [hpieces]

theorem splitChars_of_not_mem {sep : Char} {cs : List Char} (h : sep ∉ cs) :
    splitChars sep cs = [cs] := by
  induction cs with
  | nil => rfl
  | cons c cs ih =>
    rw [List.mem_cons, not_or] at h
    rw [splitChars, if_neg (Ne.symm h.1), ih h.2]

/-- No piece holds the separator. -/
theorem not_mem_of_mem_splitChars {sep : Char} {cs piece : List Char}
    (h : piece ∈ splitChars sep cs) : sep ∉ piece := by
  induction cs generalizing piece with
  | nil =>
    obtain rfl := List.mem_singleton.mp h
    exact List.not_mem_nil
  | cons c cs ih =>
    obtain ⟨first, rest, hpieces⟩ := List.exists_cons_of_ne_nil (splitChars_ne_nil sep cs)
    rw [hpieces] at ih
    rw [splitChars, hpieces] at h
    split at h
    · rcases List.mem_cons.mp h with rfl | h
      · exact List.not_mem_nil
      · exact ih h
    · rename_i hc
      rcases List.mem_cons.mp h with rfl | h
      · exact fun hmem => (List.mem_cons.mp hmem).elim (fun heq => hc heq.symm)
          (ih List.mem_cons_self)
      · exact ih (List.mem_cons_of_mem _ h)

theorem not_mem_of_mem_split {sep : Char} {s piece : String} (h : piece ∈ split sep s) :
    sep ∉ piece.toList := by
  obtain ⟨cs, hcs, rfl⟩ := List.mem_map.mp h
  rw [String.toList_ofList]
  exact not_mem_of_mem_splitChars hcs

/-- What is not a separator stands in one of the pieces. -/
theorem exists_mem_splitChars {sep c : Char} {cs : List Char} (hc : c ≠ sep) (h : c ∈ cs) :
    ∃ piece ∈ splitChars sep cs, c ∈ piece := by
  induction cs with
  | nil => cases h
  | cons d cs ih =>
    obtain ⟨first, rest, hpieces⟩ := List.exists_cons_of_ne_nil (splitChars_ne_nil sep cs)
    rw [hpieces] at ih
    rw [splitChars, hpieces]
    rcases List.mem_cons.mp h with rfl | h
    · rw [if_neg hc]
      exact ⟨_, List.mem_cons_self, List.mem_cons_self⟩
    · obtain ⟨piece, hpiece, hmem⟩ := ih h
      split
      · exact ⟨piece, List.mem_cons_of_mem _ hpiece, hmem⟩
      · rcases List.mem_cons.mp hpiece with rfl | hpiece
        · exact ⟨_, List.mem_cons_self, List.mem_cons_of_mem _ hmem⟩
        · exact ⟨piece, List.mem_cons_of_mem _ hpiece, hmem⟩

/-- A piece holds nothing but what the text holds. -/
theorem mem_of_mem_splitChars {sep c : Char} {cs piece : List Char} (hpiece : piece ∈ splitChars sep cs)
    (h : c ∈ piece) : c ∈ cs := by
  induction cs generalizing piece with
  | nil =>
    obtain rfl := List.mem_singleton.mp hpiece
    exact h
  | cons d cs ih =>
    obtain ⟨first, rest, hpieces⟩ := List.exists_cons_of_ne_nil (splitChars_ne_nil sep cs)
    rw [hpieces] at ih
    rw [splitChars, hpieces] at hpiece
    split at hpiece
    · rcases List.mem_cons.mp hpiece with rfl | hpiece
      · cases h
      · exact List.mem_cons_of_mem _ (ih hpiece h)
    · rcases List.mem_cons.mp hpiece with rfl | hpiece
      · rcases List.mem_cons.mp h with rfl | h
        · exact List.mem_cons_self
        · exact List.mem_cons_of_mem _ (ih List.mem_cons_self h)
      · exact List.mem_cons_of_mem _ (ih (List.mem_cons_of_mem _ hpiece) h)

/-- **The pieces hold what the text holds**, but for the separators. -/
theorem mem_toList_iff {sep c : Char} {s : String} (hc : c ≠ sep) :
    c ∈ s.toList ↔ ∃ piece ∈ split sep s, c ∈ piece.toList := by
  constructor
  · intro h
    obtain ⟨piece, hpiece, hmem⟩ := exists_mem_splitChars hc h
    refine ⟨String.ofList piece, List.mem_map_of_mem hpiece, ?_⟩
    rwa [String.toList_ofList]
  · rintro ⟨piece, hpiece, hmem⟩
    obtain ⟨cs, hcs, rfl⟩ := List.mem_map.mp hpiece
    rw [String.toList_ofList] at hmem
    exact mem_of_mem_splitChars hcs hmem

theorem split_ne_nil (sep : Char) (s : String) : split sep s ≠ [] := by
  simp [split, splitChars_ne_nil]

/-- A separator parts the pieces before it from those behind it. -/
theorem split_append (sep : Char) (a b : String) :
    split sep (a ++ String.singleton sep ++ b) = split sep a ++ split sep b := by
  have hlist : (a ++ String.singleton sep ++ b).toList = a.toList ++ sep :: b.toList := by simp
  rw [split, hlist, splitChars_append, List.map_append]
  rfl

theorem split_eq_singleton {sep : Char} {s : String} (h : sep ∉ s.toList) : split sep s = [s] := by
  rw [split, splitChars_of_not_mem h]
  simp

theorem joined_cons (sep s : String) {rest : List String} (h : rest ≠ []) :
    joined sep (s :: rest) = s ++ sep ++ joined sep rest := by
  cases rest with
  | nil => exact absurd rfl h
  | cons t rest => rfl

theorem joined_append (sep : String) {as bs : List String} (ha : as ≠ []) (hb : bs ≠ []) :
    joined sep (as ++ bs) = joined sep as ++ sep ++ joined sep bs := by
  induction as with
  | nil => exact absurd rfl ha
  | cons a as ih =>
    cases as with
    | nil => exact joined_cons sep a hb
    | cons a' as =>
      rw [List.cons_append, joined_cons sep a (by simp), ih (by simp), joined_cons sep a (by simp)]
      simp only [String.append_assoc]

theorem joined_splitChars (sep : Char) (cs : List Char) :
    joined (String.singleton sep) ((splitChars sep cs).map String.ofList) = String.ofList cs := by
  induction cs with
  | nil => rfl
  | cons c cs ih =>
    obtain ⟨piece, rest, hpieces⟩ := List.exists_cons_of_ne_nil (splitChars_ne_nil sep cs)
    unfold splitChars
    split
    · rename_i hc
      rw [List.map_cons, joined_cons _ _ (by simp [hpieces]), ih, hc]
      exact String.toList_inj.mp (by simp)
    · rw [hpieces] at ih ⊢
      cases rest with
      | nil =>
        simp only [List.map_cons, List.map_nil, joined] at ih ⊢
        have := congrArg String.toList ih
        exact String.toList_inj.mp (by simpa using this)
      | cons next rest =>
        simp only [List.map_cons] at ih ⊢
        rw [joined_cons _ _ (by simp)] at ih ⊢
        have := congrArg String.toList ih
        exact String.toList_inj.mp (by simpa using this)

/-- **Pieces give the text back.** -/
theorem joined_split (sep : Char) (s : String) : joined (String.singleton sep) (split sep s) = s := by
  rw [split, joined_splitChars, String.ofList_toList]

theorem split_injective (sep : Char) : Function.Injective (split sep) := by
  intro a b h
  rw [← joined_split sep a, ← joined_split sep b, h]

end Syndication.Text
