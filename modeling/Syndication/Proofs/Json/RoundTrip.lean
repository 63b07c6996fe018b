import Syndication.Json.Writer
import Syndication.Proofs.Json.Grammar

/-!
# Proofs.Json.RoundTrip — a written document reads back as its value

A value can be written if its strings have texts and its numbers are whole. What is written for it is
in the grammar, so the document reads back as the value.

## Contents
* `Written`                         — values that documents are made of
* `isString_quoted`, `isNumber_repr`, `spells_render` — what is written stands for the value
* `ofText?_compact`, `ofBytes?_compact` — whole documents
-/

namespace Syndication.Json

/-- Values whose strings have texts and whose numbers are whole. -/
inductive Written : Json → Prop where
  | null : Written .null
  | bool (b : Bool) : Written (.bool b)
  | int (n : Int) : Written (.int n)
  | text (s : String) : Written (.text s)
  | array {items : List Json} (h : ∀ j ∈ items, Written j) : Written (.array items)
  | record {ms : List (String × Json)} (h : ∀ m ∈ ms, Written m.2) : Written (.record ms)

theorem Written.texts (ss : List String) : Written (.texts ss) := by
  apply Written.array
  intro j hj
  obtain ⟨s, _, rfl⟩ := List.mem_map.mp hj
  exact .text s

/-! ## Strings -/

/-- The piece that a written character is read as: control characters are escaped by their number
unless they have a letter. -/
def pieceOf (c : Char) : Piece :=
  if c.toNat < 0x20 ∧ c ≠ '\x08' ∧ c ≠ '\t' ∧ c ≠ '\n' ∧ c ≠ '\x0c' ∧ c ≠ '\r' then .unit c.toNat
  else .char c

/-- **One character.** However it is written, it stands for its piece. -/
theorem isPiece_escaped (c : Char) : IsPiece (escaped c) (pieceOf c) := by
  unfold escaped
  -- seven characters have an escape of their own
  iterate 7
    split
    · subst_vars
      exact .escape (by decide)
  split
  · rename_i h8 ht hn hf hr hlow
    have hpiece : pieceOf c = .unit c.toNat := if_pos ⟨hlow, h8, ht, hn, hf, hr⟩
    have hhalves : 4096 * 0 + 256 * 0 + 16 * (c.toNat / 16) + c.toNat % 16 = c.toNat := by omega
    have hzero : Hex.IsDigitOf '0' 0 := .inl rfl
    have hhigh : Hex.IsDigitOf (Hex.digit (c.toNat / 16)) (c.toNat / 16) :=
      Hex.isDigitOf_digit (by omega)
    have hlow : Hex.IsDigitOf (Hex.digit (c.toNat % 16)) (c.toNat % 16) :=
      Hex.isDigitOf_digit (by omega)
    have hunit := IsPiece.unit hzero hzero hhigh hlow
    rwa [hhalves, ← hpiece] at hunit
  · rename_i hq hb h8 ht hn hf hr hlow
    have hpiece : pieceOf c = .char c := if_neg (fun h => hlow h.1)
    rw [hpiece]
    exact .plain hq hb (Nat.not_lt.mp hlow)

theorem isInside_escaped (cs : List Char) : IsInside (cs.flatMap escaped) (cs.map pieceOf) := by
  induction cs with
  | nil => exact .nil
  | cons c cs ih => exact .cons (isPiece_escaped c) ih

/-- A control character is the character of its own number, which is no surrogate. -/
theorem unitChar?_control {c : Char} (h : c.toNat < 0x20) :
    Utf16.unitChar? c.toNat = some c := by
  have hs : (Utf16.isFirst c.toNat || Utf16.isSecond c.toNat) = false := by
    simp only [Utf16.isFirst, Utf16.isSecond, Bool.or_eq_false_iff, Bool.and_eq_false_iff,
      decide_eq_false_iff_not]
    omega
  rw [Utf16.unitChar?, hs]
  exact congrArg some (Char.ofNat_toNat c)

theorem piecesChars?_pieceOf (cs : List Char) :
    piecesChars? (cs.map pieceOf) = some cs := by
  induction cs with
  | nil => rfl
  | cons c cs ih =>
    rw [List.map_cons, pieceOf]
    split
    · rename_i h
      have hc := unitChar?_control h.1
      generalize cs.map pieceOf = ps at ih
      have hunit : piecesChars? (.unit c.toNat :: ps) = (piecesChars? ps).map (c :: ·) := by
        rw [piecesChars?.eq_def]
        split <;> grind [piecesChars?]
      rw [hunit, ih, Option.map_some]
    · rw [piecesChars?, ih, Option.map_some]

theorem piecesText?_pieceOf (s : String) : piecesText? (s.toList.map pieceOf) = some s := by
  rw [piecesText?, piecesChars?_pieceOf, Option.map_some, String.ofList_toList]

/-- **Strings.** A text in quotes is a string with that text. -/
theorem isString_quoted (s : String) : IsString (quoted (some s)) (some s) := by
  have hstring := IsString.mk (isInside_escaped s.toList)
  rwa [piecesText?_pieceOf] at hstring

/-! ## Numbers -/

theorem toDigits_head {n : Nat} (hn : n ≠ 0) : (Nat.toDigits 10 n).head? ≠ some '0' := by
  induction n using Nat.strongRecOn with
  | ind n ih =>
    rw [Nat.toDigits_eq_if (by decide)]
    split
    · rename_i hlt
      have h : ∀ k < 10, k ≠ 0 → k.digitChar ≠ '0' := by decide
      simpa using h n hlt hn
    · have hne := Nat.toDigits_ne_nil (n := n / 10) (b := 10)
      have ih' := ih (n / 10) (by omega) (by omega)
      cases hds : Nat.toDigits 10 (n / 10) with
      | nil => exact absurd hds hne
      | cons d ds => rwa [hds] at ih'

theorem isUnsigned_toDigits (n : Nat) : IsUnsigned (Nat.toDigits 10 n) := by
  have hdigits : IsDigits (Nat.toDigits 10 n) :=
    ⟨Nat.toDigits_ne_nil, fun c hc => Nat.isDigit_of_mem_toDigits (by decide) (by decide) hc⟩
  have hzero : Nat.toDigits 10 n = ['0'] ∨ (Nat.toDigits 10 n).head? ≠ some '0' := by
    by_cases hn : n = 0
    · subst hn
      exact .inl rfl
    · exact .inr (toDigits_head hn)
  have hunsigned := IsUnsigned.mk ⟨hdigits, hzero⟩ (.inl rfl) (.inl rfl)
  rwa [List.append_nil, List.append_nil] at hunsigned

theorem repr_toList (n : Int) :
    (toString n).toList = if n < 0 then '-' :: Nat.toDigits 10 n.natAbs
      else Nat.toDigits 10 n.natAbs := by
  cases n with
  | ofNat m => simp [toString, Int.repr]
  | negSucc m => simp [toString, Int.repr, Int.negSucc_lt_zero]

/-- **Numbers.** A whole number is written as one. -/
theorem isNumber_repr (n : Int) : IsNumber (toString n).toList := by
  rw [repr_toList]
  split
  · exact .negative (isUnsigned_toDigits _)
  · exact .positive (isUnsigned_toDigits _)

/-! ## Values -/

theorem renderItems_cons_cons (j k : Json) (js : List Json) :
    renderItems (j :: k :: js) = render j ++ ',' :: renderItems (k :: js) := by
  simp [renderItems]

theorem renderMembers_singleton (k : Option String) (j : Json) :
    renderMembers [(k, j)] = quoted k ++ ':' :: render j := by
  simp [renderMembers]

theorem renderMembers_cons_cons (k : Option String) (j : Json) (m : Option String × Json)
    (ms : List (Option String × Json)) :
    renderMembers ((k, j) :: m :: ms) =
      quoted k ++ ':' :: (render j ++ ',' :: renderMembers (m :: ms)) := by
  simp [renderMembers]

theorem isBlanks_nil : IsBlanks [] := fun _ hc => nomatch hc

/-- Items with commas between them stand for the list. -/
theorem spells_renderItems {js : List Json} (hne : js ≠ [])
    (hspells : ∀ j ∈ js, Spells (.value j) (render j)) : Spells (.items js) (renderItems js) := by
  induction js with
  | nil => exact absurd rfl hne
  | cons j js ih =>
    have hj := hspells j List.mem_cons_self
    cases js with
    | nil =>
      have hitem := Spells.item isBlanks_nil hj isBlanks_nil
      rwa [List.append_nil] at hitem
    | cons k js =>
      rw [renderItems_cons_cons]
      exact .items isBlanks_nil hj isBlanks_nil
        (ih (List.cons_ne_nil k js) fun i hi => hspells i (List.mem_cons_of_mem j hi))

/-- Members with commas between them stand for the object. -/
theorem spells_renderMembers {ms : List (Option String × Json)} (hne : ms ≠ [])
    (hkey : ∀ m ∈ ms, m.1.isSome) (hspells : ∀ m ∈ ms, Spells (.value m.2) (render m.2)) :
    Spells (.members ms) (renderMembers ms) := by
  induction ms with
  | nil => exact absurd rfl hne
  | cons m ms ih =>
    obtain ⟨k?, j⟩ := m
    obtain ⟨k, rfl⟩ := Option.isSome_iff_exists.mp (hkey (k?, j) List.mem_cons_self)
    have hj : Spells (.value j) (render j) := hspells (some k, j) List.mem_cons_self
    have hk := isString_quoted k
    cases ms with
    | nil =>
      rw [renderMembers_singleton]
      have hmember := Spells.member isBlanks_nil hk isBlanks_nil isBlanks_nil hj isBlanks_nil
      rwa [List.append_nil] at hmember
    | cons m' ms =>
      rw [renderMembers_cons_cons]
      exact .members isBlanks_nil hk isBlanks_nil isBlanks_nil hj isBlanks_nil
        (ih (List.cons_ne_nil m' ms) (fun i hi => hkey i (List.mem_cons_of_mem _ hi))
          fun i hi => hspells i (List.mem_cons_of_mem _ hi))

/-- **Values.** What is written for a value stands for it. -/
theorem spells_render {j : Json} (hw : Written j) : Spells (.value j) (render j) := by
  induction hw with
  | null => exact .null
  | bool b =>
    cases b with
    | true => exact .true
    | false => exact .false
  | int n =>
    have hnumber := Spells.number (isNumber_repr n)
    rwa [String.ofList_toList] at hnumber
  | text s => exact .string (isString_quoted s)
  | @array js h ih =>
    cases js with
    | nil => exact .emptyArray isBlanks_nil
    | cons j js => exact .array (spells_renderItems (List.cons_ne_nil j js) ih)
  | @record ms h ih =>
    cases ms with
    | nil => exact .emptyObject isBlanks_nil
    | cons m ms =>
      refine .object (spells_renderMembers (List.cons_ne_nil _ _) ?_ ?_)
      · intro m' hm'
        obtain ⟨m'', _, rfl⟩ := List.mem_map.mp hm'
        rfl
      · intro m' hm'
        obtain ⟨m'', hm'', rfl⟩ := List.mem_map.mp hm'
        exact ih m'' hm''

/-! ## Whole documents -/

theorem isDocument_compact {j : Json} (hw : Written j) : IsDocument j.compact j := by
  refine ⟨[], render j, [], isBlanks_nil, spells_render hw, isBlanks_nil, ?_⟩
  rw [compact, String.toList_ofList, List.nil_append, List.append_nil]

/-- **A compact document reads back as its value.** -/
theorem ofText?_compact {j : Json} (hw : Written j) : ofText? j.compact = some j :=
  ofText?_of_isDocument (isDocument_compact hw)

/-- So do the octets of a compact document. -/
theorem ofBytes?_compact {j : Json} (hw : Written j) :
    ofBytes? (Utf8.encode j.compact) = some j :=
  ofBytes?_of_isDocument (isDocument_compact hw)

end Syndication.Json
