import Syndication.Json.Reader
import Syndication.Proofs.Text.Hex
import Syndication.Proofs.Text.Utf8

/-!
# Proofs.Json.Grammar — whatever the grammar allows is read

The grammar of RFC 8259 as a relation between values and characters, and the proof that the reader
accepts all of it: blanks between the symbols, numbers with fractions and exponents, characters of
strings in each of their spellings, and lists and objects of any depth. Read behind the characters of
a value, the reader finds the value and stops where it ended, whatever follows: a string ends at its
quote, a list at its bracket, and a number where something stands that continues no number. The calls
of the readers are bounded by the length of what is read, so the bound of a document is enough.

## Contents
* `IsBlanks`, `IsNumber`, `IsPiece`, `IsString`   — blanks, numbers and strings
* `Part`, `Spells`, `IsDocument`                  — values and whole documents
* `stringEnd_inside`                              — strings are read
* `EndsNumber`, `number?_append`                  — numbers are read
* `reads_of_spells`                               — values are read
* `ofText?_of_isDocument`, `ofBytes?_of_isDocument`
-/

namespace Syndication.Json

open Utf8 (Symbol)

/-! ## The grammar -/

/-- Characters that may stand between symbols. -/
def IsBlanks (cs : List Char) : Prop := ∀ c ∈ cs, isSpace (some c) = true

/-! ### Numbers -/

def IsDigits (cs : List Char) : Prop := cs ≠ [] ∧ ∀ c ∈ cs, c.isDigit = true

/-- A zero alone, or digits that do not begin with one. -/
def IsWhole (cs : List Char) : Prop := IsDigits cs ∧ (cs = ['0'] ∨ cs.head? ≠ some '0')

def IsFraction (cs : List Char) : Prop := cs = [] ∨ ∃ ds, IsDigits ds ∧ cs = '.' :: ds

def IsExponent (cs : List Char) : Prop :=
  cs = [] ∨ ∃ e sign ds, (e = 'e' ∨ e = 'E') ∧ (sign = [] ∨ sign = ['+'] ∨ sign = ['-']) ∧
    IsDigits ds ∧ cs = e :: sign ++ ds

/-- A number without its sign. -/
inductive IsUnsigned : List Char → Prop
  | mk {whole fraction exponent : List Char} (hwhole : IsWhole whole) (hfraction : IsFraction fraction)
      (hexponent : IsExponent exponent) : IsUnsigned (whole ++ fraction ++ exponent)

inductive IsNumber : List Char → Prop
  | positive {cs : List Char} (h : IsUnsigned cs) : IsNumber cs
  | negative {cs : List Char} (h : IsUnsigned cs) : IsNumber ('-' :: cs)

/-! ### Strings -/

/-- The letters that may stand behind a backslash, with what they stand for. -/
def escapes : List (Char × Char) :=
  [('"', '"'), ('\\', '\\'), ('/', '/'), ('b', '\x08'), ('f', '\x0c'), ('n', '\n'), ('r', '\r'),
    ('t', '\t')]

/-- Characters that stand for a piece of a string. -/
inductive IsPiece : List Char → Piece → Prop
  | plain {c : Char} (hquote : c ≠ '"') (hbackslash : c ≠ '\\') (hcontrol : 0x20 ≤ c.toNat) :
      IsPiece [c] (.char c)
  | escape {e c : Char} (h : (e, c) ∈ escapes) : IsPiece ['\\', e] (.char c)
  | unit {a b c d : Char} {w x y z : Nat} (ha : Hex.IsDigitOf a w) (hb : Hex.IsDigitOf b x)
      (hc : Hex.IsDigitOf c y) (hd : Hex.IsDigitOf d z) :
      IsPiece ['\\', 'u', a, b, c, d] (.unit (4096 * w + 256 * x + 16 * y + z))

/-- Characters that stand for pieces, one after the other. -/
inductive IsInside : List Char → List Piece → Prop
  | nil : IsInside [] []
  | cons {cs ds : List Char} {p : Piece} {ps : List Piece} (head : IsPiece cs p)
      (tail : IsInside ds ps) : IsInside (cs ++ ds) (p :: ps)

/-- A string in quotes. It has a text unless it spells half of a pair of surrogates. -/
inductive IsString : List Char → Option String → Prop
  | mk {inside : List Char} {ps : List Piece} (h : IsInside inside ps) :
      IsString ('"' :: inside ++ ['"']) (piecesText? ps)

/-! ### Values -/

/-- What characters may stand for: a value, the items of a list or the members of an object. -/
inductive Part where
  | value (j : Json)
  | items (js : List Json)
  | members (ms : List (Option String × Json))

/-- **The grammar**: characters that stand for a part of a document. Blanks stand around items, keys and
members, and are not part of a value. -/
inductive Spells : Part → List Char → Prop
  | null : Spells (.value .null) ['n', 'u', 'l', 'l']
  | true : Spells (.value (.bool true)) ['t', 'r', 'u', 'e']
  | false : Spells (.value (.bool false)) ['f', 'a', 'l', 's', 'e']
  | number {cs : List Char} (h : IsNumber cs) : Spells (.value (.number (String.ofList cs))) cs
  | string {cs : List Char} {text : Option String} (h : IsString cs text) :
      Spells (.value (.string text)) cs
  | emptyArray {blanks : List Char} (h : IsBlanks blanks) :
      Spells (.value (.array [])) ('[' :: blanks ++ [']'])
  | array {js : List Json} {cs : List Char} (h : Spells (.items js) cs) :
      Spells (.value (.array js)) ('[' :: cs ++ [']'])
  | emptyObject {blanks : List Char} (h : IsBlanks blanks) :
      Spells (.value (.object [])) ('{' :: blanks ++ ['}'])
  | object {ms : List (Option String × Json)} {cs : List Char} (h : Spells (.members ms) cs) :
      Spells (.value (.object ms)) ('{' :: cs ++ ['}'])
  | item {j : Json} {before cs behind : List Char} (hbefore : IsBlanks before)
      (h : Spells (.value j) cs) (hbehind : IsBlanks behind) :
      Spells (.items [j]) (before ++ (cs ++ behind))
  | items {j : Json} {js : List Json} {before cs behind ds : List Char} (hbefore : IsBlanks before)
      (h : Spells (.value j) cs) (hbehind : IsBlanks behind) (hs : Spells (.items js) ds) :
      Spells (.items (j :: js)) (before ++ (cs ++ (behind ++ ',' :: ds)))
  | member {key : Option String} {j : Json} {before ks colon before' cs behind : List Char}
      (hbefore : IsBlanks before) (hkey : IsString ks key) (hcolon : IsBlanks colon)
      (hbefore' : IsBlanks before') (h : Spells (.value j) cs) (hbehind : IsBlanks behind) :
      Spells (.members [(key, j)])
        (before ++ (ks ++ (colon ++ ':' :: (before' ++ (cs ++ behind)))))
  | members {key : Option String} {j : Json} {ms : List (Option String × Json)}
      {before ks colon before' cs behind ds : List Char}
      (hbefore : IsBlanks before) (hkey : IsString ks key) (hcolon : IsBlanks colon)
      (hbefore' : IsBlanks before') (h : Spells (.value j) cs) (hbehind : IsBlanks behind)
      (hs : Spells (.members ms) ds) :
      Spells (.members ((key, j) :: ms))
        (before ++ (ks ++ (colon ++ ':' :: (before' ++ (cs ++ (behind ++ ',' :: ds))))))

/-- A document that holds a value, with blanks around it. -/
def IsDocument (text : String) (j : Json) : Prop :=
  ∃ before cs behind, IsBlanks before ∧ Spells (.value j) cs ∧ IsBlanks behind ∧
    text.toList = before ++ (cs ++ behind)

/-! ## Blanks are passed over -/

theorem skipSpace_cons {c : Char} (h : isSpace (some c) = false) (rest : List Symbol) :
    skipSpace (some c :: rest) = some c :: rest := by
  rw [skipSpace, h]
  rfl

theorem skipSpace_append {blanks : List Char} (h : IsBlanks blanks) (rest : List Symbol) :
    skipSpace (blanks.map some ++ rest) = skipSpace rest := by
  induction blanks with
  | nil => rfl
  | cons c cs ih =>
    have hc : isSpace (some c) = true := h c List.mem_cons_self
    rw [List.map_cons, List.cons_append, skipSpace, if_pos hc]
    exact ih fun d hd => h d (List.mem_cons_of_mem c hd)

theorem skipSpace_skipSpace (ss : List Symbol) : skipSpace (skipSpace ss) = skipSpace ss := by
  induction ss with
  | nil => rfl
  | cons s ss ih =>
    rw [skipSpace]
    split
    · exact ih
    · rename_i hs
      rw [skipSpace, if_neg hs]

/-- The readers pass over blanks themselves. -/
theorem value_skipSpace (fuel : Nat) (ss : List Symbol) : value fuel (skipSpace ss) = value fuel ss := by
  cases fuel with
  | zero => rfl
  | succ fuel => rw [value, value, skipSpace_skipSpace]

theorem items_skipSpace (fuel : Nat) (done : List Json) (ss : List Symbol) :
    items fuel done (skipSpace ss) = items fuel done ss := by
  cases fuel with
  | zero => rfl
  | succ fuel => rw [items, items, value_skipSpace]

theorem members_skipSpace (fuel : Nat) (done : List (Option String × Json)) (ss : List Symbol) :
    members fuel done (skipSpace ss) = members fuel done ss := by
  cases fuel with
  | zero => rfl
  | succ fuel => rw [members, members, key?, key?, skipSpace_skipSpace]

/-! ## Strings are read -/

theorem stringEnd_escape {e c : Char} (h : (e, c) ∈ escapes) (done : List Piece) (rest : List Symbol) :
    stringEnd done (some '\\' :: some e :: rest) = stringEnd (.char c :: done) rest := by
  have hletter : escapeChar? e = some c ∧ e ≠ 'u' := by
    revert h
    simp only [escapes, List.mem_cons, Prod.mk.injEq, List.not_mem_nil, or_false]
    rintro (⟨rfl, rfl⟩ | ⟨rfl, rfl⟩ | ⟨rfl, rfl⟩ | ⟨rfl, rfl⟩ | ⟨rfl, rfl⟩ | ⟨rfl, rfl⟩ | ⟨rfl, rfl⟩ |
      ⟨rfl, rfl⟩) <;> decide
  rw [stringEnd.eq_def]
  split <;> grind

theorem stringEnd_plain {c : Char} (hq : c ≠ '"') (hb : c ≠ '\\') (hc : 0x20 ≤ c.toNat)
    (done : List Piece) (rest : List Symbol) :
    stringEnd done (some c :: rest) = stringEnd (.char c :: done) rest := by
  rw [stringEnd.eq_def]
  split <;> grind

theorem fourDigits?_eq {a b c d : Char} {w x y z : Nat} (ha : Hex.IsDigitOf a w)
    (hb : Hex.IsDigitOf b x) (hc : Hex.IsDigitOf c y) (hd : Hex.IsDigitOf d z) :
    fourDigits? a b c d = some (4096 * w + 256 * x + 16 * y + z) := by
  have hvalue : 16 * (16 * (16 * (16 * 0 + w) + x) + y) + z = 4096 * w + 256 * x + 16 * y + z := by
    omega
  rw [← hvalue]
  simp [fourDigits?, Hex.toNat?, Hex.value?_of_isDigitOf ha, Hex.value?_of_isDigitOf hb,
    Hex.value?_of_isDigitOf hc, Hex.value?_of_isDigitOf hd]

/-- **One piece** is read as what it stands for. -/
theorem stringEnd_piece {cs : List Char} {p : Piece} (h : IsPiece cs p) (done : List Piece)
    (rest : List Symbol) : stringEnd done (cs.map some ++ rest) = stringEnd (p :: done) rest := by
  cases h with
  | plain hquote hbackslash hcontrol => exact stringEnd_plain hquote hbackslash hcontrol done rest
  | escape h => exact stringEnd_escape h done rest
  | unit ha hb hc hd =>
    simp only [List.map_cons, List.map_nil, List.cons_append, List.nil_append]
    rw [stringEnd.eq_4, fourDigits?_eq ha hb hc hd]

theorem stringEnd_inside {cs : List Char} {ps : List Piece} (h : IsInside cs ps) (done : List Piece)
    (rest : List Symbol) :
    stringEnd done (cs.map some ++ some '"' :: rest) = some (done.reverse ++ ps, rest) := by
  induction h generalizing done with
  | nil => simp [stringEnd]
  | cons head _ ih =>
    rw [List.map_append, List.append_assoc, stringEnd_piece head, ih, List.reverse_cons,
      List.append_assoc, List.singleton_append]

/-- **Strings.** A string is its quote, and what is read up to the closing one. -/
theorem exists_of_isString {cs : List Char} {text : Option String} (h : IsString cs text)
    (rest : List Symbol) : ∃ inside ps, cs.map some ++ rest = some '"' :: inside ∧
      stringEnd [] inside = some (ps, rest) ∧ piecesText? ps = text := by
  cases h with
  | @mk inside ps h =>
    refine ⟨inside.map some ++ some '"' :: rest, ps, by simp, ?_, rfl⟩
    rw [stringEnd_inside h, List.reverse_nil, List.nil_append]

/-! ## Numbers are read -/

/-- What follows begins with no digit. -/
def EndsDigits (rest : List Symbol) : Prop := ∀ c, rest.head? = some (some c) → c.isDigit = false

/-- What follows begins neither with a digit nor with a point. -/
def EndsFraction (rest : List Symbol) : Prop :=
  ∀ c, rest.head? = some (some c) → c.isDigit = false ∧ c ≠ '.'

/-- What follows continues no number. -/
def EndsNumber (rest : List Symbol) : Prop :=
  ∀ c, rest.head? = some (some c) → c.isDigit = false ∧ c ≠ '.' ∧ c ≠ 'e' ∧ c ≠ 'E'

theorem EndsFraction.endsDigits {rest : List Symbol} (h : EndsFraction rest) : EndsDigits rest :=
  fun c hc => (h c hc).1

theorem EndsNumber.endsFraction {rest : List Symbol} (h : EndsNumber rest) : EndsFraction rest :=
  fun c hc => ⟨(h c hc).1, (h c hc).2.1⟩

theorem endsNumber_nil : EndsNumber [] := by
  intro c h
  cases h

theorem endsNumber_cons {c : Char} (h : c.isDigit = false ∧ c ≠ '.' ∧ c ≠ 'e' ∧ c ≠ 'E')
    (rest : List Symbol) : EndsNumber (some c :: rest) := by
  intro c' hc'
  cases hc'
  exact h

/-- Blanks continue no number. -/
theorem endsNumber_blanks {blanks : List Char} (h : IsBlanks blanks) {rest : List Symbol}
    (hr : EndsNumber rest) : EndsNumber (blanks.map some ++ rest) := by
  cases blanks with
  | nil => exact hr
  | cons c cs =>
    apply endsNumber_cons
    have hc := h c List.mem_cons_self
    simp only [isSpace, Bool.or_eq_true, beq_iff_eq, Option.some.injEq] at hc
    rcases hc with ((rfl | rfl) | rfl) | rfl <;> decide

theorem digitRun_append {ds : List Char} (hd : ∀ c ∈ ds, c.isDigit = true) {rest : List Symbol}
    (hr : EndsDigits rest) : digitRun (ds.map some ++ rest) = (ds, rest) := by
  induction ds with
  | nil =>
    match rest, hr with
    | [], _ => rfl
    | none :: _, _ => rfl
    | some c :: rest, hr =>
      have hc := hr c rfl
      simp [digitRun, hc]
  | cons d ds ih =>
    have hd' := hd d (by simp)
    have ih' := ih fun c hc => hd c (by simp [hc])
    simp [digitRun, hd', ih']

theorem wholePart?_append {cs : List Char} (h : IsWhole cs) {rest : List Symbol}
    (hr : EndsDigits rest) : wholePart? (cs.map some ++ rest) = some (cs, rest) := by
  obtain ⟨⟨hne, hd⟩, hzero⟩ := h
  unfold wholePart?
  rw [digitRun_append hd hr]
  split <;> simp_all

theorem fractionPart?_append {cs : List Char} (h : IsFraction cs) {rest : List Symbol}
    (hr : EndsFraction rest) : fractionPart? (cs.map some ++ rest) = some (cs, rest) := by
  rcases h with rfl | ⟨ds, ⟨hne, hd⟩, rfl⟩
  · rw [List.map_nil, List.nil_append]
    unfold fractionPart?
    split
    · exact absurd rfl (hr '.' rfl).2
    · rfl
  · rw [List.map_cons, List.cons_append, fractionPart?, digitRun_append hd hr.endsDigits]
    cases ds with
    | nil => exact absurd rfl hne
    | cons d ds => rfl

/-- A sign is read if digits follow. -/
theorem exponentSign_append {sign ds : List Char} (hsign : sign = [] ∨ sign = ['+'] ∨ sign = ['-'])
    (hds : IsDigits ds) (rest : List Symbol) :
    exponentSign (sign.map some ++ (ds.map some ++ rest)) = (sign, ds.map some ++ rest) := by
  obtain ⟨hne, hd⟩ := hds
  rcases hsign with rfl | rfl | rfl
  · cases ds with
    | nil => exact absurd rfl hne
    | cons d ds =>
      have hdigit := hd d List.mem_cons_self
      rw [List.map_nil, List.nil_append, List.map_cons, List.cons_append, exponentSign.eq_def]
      split
      · simp_all
      · simp_all
      · rfl
  · rfl
  · rfl

theorem exponentPart?_append {cs : List Char} (h : IsExponent cs) {rest : List Symbol}
    (hr : EndsNumber rest) : exponentPart? (cs.map some ++ rest) = some (cs, rest) := by
  rcases h with rfl | ⟨e, sign, ds, he, hsign, hds, rfl⟩
  · rw [List.map_nil, List.nil_append]
    unfold exponentPart?
    split
    · rename_i e rest
      rw [if_neg (not_or.mpr (hr e rfl).2.2)]
    · rfl
  · rw [List.cons_append, List.map_cons, List.cons_append, exponentPart?, if_pos he, List.map_append,
      List.append_assoc, exponentSign_append hsign hds]
    obtain ⟨hne, hd⟩ := hds
    simp only [digitRun_append hd hr.endsFraction.endsDigits]
    cases ds with
    | nil => exact absurd rfl hne
    | cons d ds => rfl

theorem endsFraction_exponent {cs : List Char} (h : IsExponent cs) {rest : List Symbol}
    (hr : EndsNumber rest) : EndsFraction (cs.map some ++ rest) := by
  rcases h with rfl | ⟨e, sign, ds, he, -, -, rfl⟩
  · exact hr.endsFraction
  · intro c hc
    cases hc
    rcases he with rfl | rfl <;> decide

theorem endsDigits_fraction {cs : List Char} (h : IsFraction cs) {rest : List Symbol}
    (hr : EndsFraction rest) : EndsDigits (cs.map some ++ rest) := by
  rcases h with rfl | ⟨ds, -, rfl⟩
  · exact hr.endsDigits
  · intro c hc
    cases hc
    decide

theorem unsigned?_append {cs : List Char} (h : IsUnsigned cs) {rest : List Symbol}
    (hr : EndsNumber rest) : unsigned? (cs.map some ++ rest) = some (cs, rest) := by
  cases h with
  | @mk whole fraction exponent hwhole hfraction hexponent =>
    have hpoint := endsFraction_exponent hexponent hr
    rw [List.map_append, List.map_append, List.append_assoc, List.append_assoc, unsigned?,
      wholePart?_append hwhole (endsDigits_fraction hfraction hpoint)]
    simp [fractionPart?_append hfraction hpoint, exponentPart?_append hexponent hr]

/-- A number without its sign begins with a digit. -/
theorem exists_digit_of_isUnsigned {cs : List Char} (h : IsUnsigned cs) :
    ∃ d ds, cs = d :: ds ∧ d.isDigit = true := by
  cases h with
  | @mk whole fraction exponent hwhole _ _ =>
    obtain ⟨⟨hne, hd⟩, -⟩ := hwhole
    cases whole with
    | nil => exact absurd rfl hne
    | cons d ds => exact ⟨d, ds ++ fraction ++ exponent, by simp, hd d List.mem_cons_self⟩

/-- **Numbers.** A number is read as far as it goes. -/
theorem number?_append {cs : List Char} (h : IsNumber cs) {rest : List Symbol} (hr : EndsNumber rest) :
    number? (cs.map some ++ rest) = some (.number (String.ofList cs), rest) := by
  cases h with
  | positive h =>
    have hread := unsigned?_append h hr
    obtain ⟨d, ds, rfl, hd⟩ := exists_digit_of_isUnsigned h
    rw [List.map_cons, List.cons_append] at hread ⊢
    rw [number?.eq_def]
    split
    · rename_i heq
      rw [List.cons.injEq, Option.some.injEq] at heq
      rw [heq.1] at hd
      exact absurd hd (by decide)
    · rw [hread, Option.map_some]
  | negative h =>
    rw [List.map_cons, List.cons_append, number?, unsigned?_append h hr, Option.map_some]

/-! ## Values are read -/

/-- A number begins with a digit or with a minus sign. -/
theorem exists_head_of_isNumber {cs : List Char} (h : IsNumber cs) :
    ∃ c ds, cs = c :: ds ∧ (c = '-' ∨ c.isDigit = true) := by
  cases h with
  | positive h =>
    obtain ⟨d, ds, rfl, hd⟩ := exists_digit_of_isUnsigned h
    exact ⟨d, ds, rfl, .inr hd⟩
  | @negative cs h => exact ⟨'-', cs, rfl, .inl rfl⟩

/-- Characters that begin a value: no blank, and no bracket that ends a list. -/
def BeginsValue (c : Char) : Prop := isSpace (some c) = false ∧ c ≠ ']'

instance (c : Char) : Decidable (BeginsValue c) := inferInstanceAs (Decidable (_ ∧ _))

theorem beginsValue_of_isDigit {c : Char} (h : c.isDigit = true) : BeginsValue c := by
  constructor
  · apply Bool.eq_false_iff.mpr
    intro hs
    simp only [isSpace, Bool.or_eq_true, beq_iff_eq, Option.some.injEq] at hs
    rcases hs with ((rfl | rfl) | rfl) | rfl <;> exact absurd h (by decide)
  · rintro rfl
    exact absurd h (by decide)

/-- The first character of a value. -/
theorem exists_head_of_value {j : Json} {cs : List Char} (h : Spells (.value j) cs) :
    ∃ c ds, cs = c :: ds ∧ BeginsValue c := by
  cases h with
  | number h =>
    obtain ⟨c, ds, rfl, hc⟩ := exists_head_of_isNumber h
    refine ⟨c, ds, rfl, ?_⟩
    rcases hc with rfl | hc
    · decide
    · exact beginsValue_of_isDigit hc
  | string h =>
    cases h
    exact ⟨_, _, rfl, by decide⟩
  | _ => exact ⟨_, _, rfl, by decide⟩

/-- The first character of the items of a list, behind blanks. -/
theorem exists_head_of_items {js : List Json} {cs : List Char} (h : Spells (.items js) cs)
    (rest : List Symbol) :
    ∃ c tail, skipSpace (cs.map some ++ rest) = some c :: tail ∧ c ≠ ']' := by
  have hhead : ∃ before c ds, IsBlanks before ∧ cs = before ++ c :: ds ∧ BeginsValue c := by
    cases h with
    | item hbefore h _ =>
      obtain ⟨c, ds, rfl, hc⟩ := exists_head_of_value h
      exact ⟨_, c, _, hbefore, rfl, hc⟩
    | items hbefore h _ _ =>
      obtain ⟨c, ds, rfl, hc⟩ := exists_head_of_value h
      exact ⟨_, c, _, hbefore, rfl, hc⟩
  obtain ⟨before, c, ds, hbefore, rfl, hspace, hbracket⟩ := hhead
  refine ⟨c, ds.map some ++ rest, ?_, hbracket⟩
  rw [List.map_append, List.append_assoc, skipSpace_append hbefore, List.map_cons, List.cons_append,
    skipSpace_cons hspace]

/-- The members of an object begin with a quote, behind blanks. -/
theorem exists_tail_of_members {ms : List (Option String × Json)} {cs : List Char}
    (h : Spells (.members ms) cs) (rest : List Symbol) :
    ∃ tail, skipSpace (cs.map some ++ rest) = some '"' :: tail := by
  have hhead : ∃ before ds, IsBlanks before ∧ cs = before ++ '"' :: ds := by
    cases h with
    | member hbefore hkey _ _ _ _ =>
      cases hkey
      exact ⟨_, _, hbefore, rfl⟩
    | members hbefore hkey _ _ _ _ _ =>
      cases hkey
      exact ⟨_, _, hbefore, rfl⟩
  obtain ⟨before, ds, hbefore, rfl⟩ := hhead
  refine ⟨ds.map some ++ rest, ?_⟩
  rw [List.map_append, List.append_assoc, skipSpace_append hbefore, List.map_cons, List.cons_append,
    skipSpace_cons (by decide)]

/-- A number begins with none of the characters that announce another value. -/
theorem value_number {c : Char} (hc : c = '-' ∨ c.isDigit = true) (fuel : Nat)
    (rest : List Symbol) : value (fuel + 1) (some c :: rest) = number? (some c :: rest) := by
  have hspace : isSpace (some c) = false := by
    rcases hc with rfl | hc
    · decide
    · exact (beginsValue_of_isDigit hc).1
  have hne : ∀ d ∈ ['n', 't', 'f', '"', '[', '{'], c ≠ d := by
    rintro d hd rfl
    rcases hc with rfl | hc
    · exact absurd hd (by decide)
    · revert hd hc
      simp only [List.mem_cons, List.not_mem_nil, or_false]
      rintro (rfl | rfl | rfl | rfl | rfl | rfl) <;> decide
  simp only [List.mem_cons, List.not_mem_nil, or_false, forall_eq_or_imp, forall_eq] at hne
  rw [value.eq_def]
  simp only [skipSpace_cons hspace]
  split <;> simp_all

/-- What the readers do with the characters of a part, given calls enough for their number. -/
def Reads (cs : List Char) : Part → Prop
  | .value j => ∀ fuel, cs.length ≤ fuel → ∀ rest, EndsNumber rest →
      value fuel (cs.map some ++ rest) = some (j, rest)
  | .items js => ∀ fuel, cs.length + 1 ≤ fuel → ∀ done rest,
      items fuel done (cs.map some ++ some ']' :: rest) = some (.array (done.reverse ++ js), rest)
  | .members ms => ∀ fuel, cs.length + 1 ≤ fuel → ∀ done rest,
      members fuel done (cs.map some ++ some '}' :: rest) = some (.object (done.reverse ++ ms), rest)

theorem value_blanks {before : List Char} (hbefore : IsBlanks before) (fuel : Nat) (ss : List Symbol) :
    value fuel (before.map some ++ ss) = value fuel ss := by
  rw [← value_skipSpace, skipSpace_append hbefore, value_skipSpace]

theorem key?_blanks {before ks colon : List Char} {key : Option String} (hbefore : IsBlanks before)
    (hkey : IsString ks key) (hcolon : IsBlanks colon) (rest : List Symbol) :
    key? (before.map some ++ (ks.map some ++ (colon.map some ++ some ':' :: rest))) =
      some (key, rest) := by
  obtain ⟨inside, ps, hin, hend, hps⟩ := exists_of_isString hkey (colon.map some ++ some ':' :: rest)
  rw [hin, key?, skipSpace_append hbefore, skipSpace_cons (by decide)]
  simp only [hend, Option.bind_eq_bind, Option.bind_some]
  rw [skipSpace_append hcolon, skipSpace_cons (by decide)]
  exact congrArg (fun text => some (text, rest)) hps

/-- Calls enough for the characters of a value are at least one. -/
theorem exists_succ_of_le {cs : List Char} {fuel : Nat} (hfuel : cs.length ≤ fuel) (hcs : cs ≠ []) :
    ∃ f, fuel = f + 1 := by
  have hpos := List.length_pos_iff.mpr hcs
  exact ⟨fuel - 1, by omega⟩

theorem reads_array {js : List Json} {cs : List Char} (h : Spells (.items js) cs)
    (ih : Reads cs (.items js)) : Reads ('[' :: cs ++ [']']) (.value (.array js)) := by
  intro fuel hfuel rest _
  obtain ⟨f, rfl⟩ := exists_succ_of_le hfuel (by simp)
  have hlen : cs.length + 1 ≤ f := by
    simp only [List.cons_append, List.length_cons, List.length_append, List.length_nil] at hfuel
    omega
  have hitems := ih f hlen [] rest
  -- the first item begins neither with a blank nor with the bracket that would end the list
  obtain ⟨c, tail, hskip, hc⟩ := exists_head_of_items h (some ']' :: rest)
  rw [← items_skipSpace, hskip] at hitems
  simp only [List.cons_append, List.map_cons, List.map_append, List.map_nil, List.append_assoc,
    List.nil_append]
  rw [value, skipSpace_cons (by decide)]
  simp only [hskip]
  split
  · rename_i heq
    exact absurd (Option.some.inj (List.cons.inj heq).1) hc
  · rw [hitems, List.reverse_nil, List.nil_append]

theorem reads_object {ms : List (Option String × Json)} {cs : List Char} (h : Spells (.members ms) cs)
    (ih : Reads cs (.members ms)) : Reads ('{' :: cs ++ ['}']) (.value (.object ms)) := by
  intro fuel hfuel rest _
  obtain ⟨f, rfl⟩ := exists_succ_of_le hfuel (by simp)
  have hlen : cs.length + 1 ≤ f := by
    simp only [List.cons_append, List.length_cons, List.length_append, List.length_nil] at hfuel
    omega
  have hmembers := ih f hlen [] rest
  obtain ⟨tail, hskip⟩ := exists_tail_of_members h (some '}' :: rest)
  rw [← members_skipSpace, hskip] at hmembers
  simp only [List.cons_append, List.map_cons, List.map_append, List.map_nil, List.append_assoc,
    List.nil_append]
  rw [value, skipSpace_cons (by decide)]
  simp only [hskip]
  exact hmembers

section Lists

variable {j : Json} {before cs behind : List Char} (hbefore : IsBlanks before)
  (ih : Reads cs (.value j)) (hbehind : IsBlanks behind)
include hbefore ih hbehind

/-- A value with blanks around it is read up to the blanks behind it. -/
theorem value_between (stop : Char)
    (hstop : stop.isDigit = false ∧ stop ≠ '.' ∧ stop ≠ 'e' ∧ stop ≠ 'E') {fuel : Nat}
    (hfuel : cs.length ≤ fuel) (rest : List Symbol) :
    value fuel (before.map some ++ (cs.map some ++ (behind.map some ++ some stop :: rest))) =
      some (j, behind.map some ++ some stop :: rest) := by
  rw [value_blanks hbefore]
  exact ih fuel hfuel _ (endsNumber_blanks hbehind (endsNumber_cons hstop rest))

theorem reads_item : Reads (before ++ (cs ++ behind)) (.items [j]) := by
  intro fuel hfuel done rest
  obtain ⟨f, rfl⟩ : ∃ f, fuel = f + 1 := ⟨fuel - 1, by omega⟩
  simp only [List.length_append] at hfuel
  simp only [List.map_append, List.append_assoc]
  rw [items, value_between hbefore ih hbehind ']' (by decide) (by omega)]
  simp only [skipSpace_append hbehind, skipSpace_cons (show isSpace (some ']') = false by decide),
    List.reverse_cons]

theorem reads_items {js : List Json} {ds : List Char} (ihs : Reads ds (.items js)) :
    Reads (before ++ (cs ++ (behind ++ ',' :: ds))) (.items (j :: js)) := by
  intro fuel hfuel done rest
  obtain ⟨f, rfl⟩ : ∃ f, fuel = f + 1 := ⟨fuel - 1, by omega⟩
  simp only [List.length_append, List.length_cons] at hfuel
  simp only [List.map_append, List.map_cons, List.append_assoc, List.cons_append]
  rw [items, value_between hbefore ih hbehind ',' (by decide) (by omega)]
  simp only [skipSpace_append hbehind, skipSpace_cons (show isSpace (some ',') = false by decide)]
  rw [ihs f (by omega), List.reverse_cons, List.append_assoc, List.singleton_append]

variable {front ks colon : List Char} {key : Option String} (hfront : IsBlanks front)
  (hkey : IsString ks key) (hcolon : IsBlanks colon)
include hfront hkey hcolon

theorem reads_member :
    Reads (front ++ (ks ++ (colon ++ ':' :: (before ++ (cs ++ behind))))) (.members [(key, j)]) := by
  intro fuel hfuel done rest
  obtain ⟨f, rfl⟩ : ∃ f, fuel = f + 1 := ⟨fuel - 1, by omega⟩
  simp only [List.length_append, List.length_cons] at hfuel
  simp only [List.map_append, List.map_cons, List.append_assoc, List.cons_append]
  rw [members, key?_blanks hfront hkey hcolon]
  simp only [value_between hbefore ih hbehind '}' (by decide) (by omega : cs.length ≤ f),
    skipSpace_append hbehind, skipSpace_cons (show isSpace (some '}') = false by decide),
    List.reverse_cons]

theorem reads_members {ms : List (Option String × Json)} {ds : List Char}
    (ihs : Reads ds (.members ms)) :
    Reads (front ++ (ks ++ (colon ++ ':' :: (before ++ (cs ++ (behind ++ ',' :: ds))))))
      (.members ((key, j) :: ms)) := by
  intro fuel hfuel done rest
  obtain ⟨f, rfl⟩ : ∃ f, fuel = f + 1 := ⟨fuel - 1, by omega⟩
  simp only [List.length_append, List.length_cons] at hfuel
  simp only [List.map_append, List.map_cons, List.append_assoc, List.cons_append]
  rw [members, key?_blanks hfront hkey hcolon]
  simp only [value_between hbefore ih hbehind ',' (by decide) (by omega : cs.length ≤ f),
    skipSpace_append hbehind, skipSpace_cons (show isSpace (some ',') = false by decide)]
  rw [ihs f (by omega), List.reverse_cons, List.append_assoc, List.singleton_append]

end Lists

/-- **Values.** What the grammar allows is read up to its end, whatever follows. -/
theorem reads_of_spells {part : Part} {cs : List Char} (h : Spells part cs) : Reads cs part := by
  induction h with
  | null =>
    intro fuel hfuel rest _
    obtain ⟨f, rfl⟩ := exists_succ_of_le hfuel (by simp)
    simp [value, skipSpace_cons (show isSpace (some 'n') = false by decide)]
  | true =>
    intro fuel hfuel rest _
    obtain ⟨f, rfl⟩ := exists_succ_of_le hfuel (by simp)
    simp [value, skipSpace_cons (show isSpace (some 't') = false by decide)]
  | false =>
    intro fuel hfuel rest _
    obtain ⟨f, rfl⟩ := exists_succ_of_le hfuel (by simp)
    simp [value, skipSpace_cons (show isSpace (some 'f') = false by decide)]
  | number h =>
    intro fuel hfuel rest hr
    have hnumber := number?_append h hr
    obtain ⟨c, ds, rfl, hc⟩ := exists_head_of_isNumber h
    obtain ⟨f, rfl⟩ := exists_succ_of_le hfuel (by simp)
    rw [← hnumber, List.map_cons, List.cons_append, value_number hc]
  | @string cs text h =>
    intro fuel hfuel rest _
    obtain ⟨inside, ps, hin, hend, hps⟩ := exists_of_isString h rest
    have hne : cs ≠ [] := by
      rintro rfl
      cases h
    obtain ⟨f, rfl⟩ := exists_succ_of_le hfuel hne
    rw [hin, value, skipSpace_cons (by decide)]
    simp only [hend, Option.map_some, hps]
  | emptyArray h =>
    intro fuel hfuel rest _
    obtain ⟨f, rfl⟩ := exists_succ_of_le hfuel (by simp)
    simp [value, skipSpace_append h, skipSpace_cons (show isSpace (some '[') = false by decide),
      skipSpace_cons (show isSpace (some ']') = false by decide)]
  | array h ih => exact reads_array h ih
  | emptyObject h =>
    intro fuel hfuel rest _
    obtain ⟨f, rfl⟩ := exists_succ_of_le hfuel (by simp)
    simp [value, skipSpace_append h, skipSpace_cons (show isSpace (some '{') = false by decide),
      skipSpace_cons (show isSpace (some '}') = false by decide)]
  | object h ih => exact reads_object h ih
  | item hbefore h hbehind ih => exact reads_item hbefore ih hbehind
  | items hbefore h hbehind hs ih ihs => exact reads_items hbefore ih hbehind ihs
  | member hfront hkey hcolon hbefore h hbehind ih =>
    exact reads_member hbefore ih hbehind hfront hkey hcolon
  | members hfront hkey hcolon hbefore h hbehind hs ih ihs =>
    exact reads_members hbefore ih hbehind hfront hkey hcolon ihs

/-! ## Whole documents are read -/

theorem ofSymbols?_of_isDocument {text : String} {j : Json} (h : IsDocument text j) :
    ofSymbols? (text.toList.map some) = some j := by
  obtain ⟨before, cs, behind, hbefore, hspells, hbehind, htext⟩ := h
  have hends : EndsNumber (behind.map some) := by
    have hnil := endsNumber_blanks hbehind endsNumber_nil
    rwa [List.append_nil] at hnil
  have hread := reads_of_spells hspells ((text.toList.map some).length + 1)
    (by rw [List.length_map, htext]; simp; omega) _ hends
  have hrest : skipSpace (behind.map some) = [] := by
    have hnil := skipSpace_append hbehind []
    rwa [List.append_nil] at hnil
  rw [← value_blanks hbefore, ← List.map_append, ← List.map_append, ← htext] at hread
  rw [ofSymbols?, hread]
  simp [hrest]

/-- **A document is read as its value.** -/
theorem ofText?_of_isDocument {text : String} {j : Json} (h : IsDocument text j) :
    ofText? text = some j :=
  ofSymbols?_of_isDocument h

/-- So are its octets. -/
theorem ofBytes?_of_isDocument {text : String} {j : Json} (h : IsDocument text j) :
    ofBytes? (Utf8.encode text) = some j := by
  rw [ofBytes?, Utf8.symbols_encode, ofSymbols?_of_isDocument h]

end Syndication.Json
