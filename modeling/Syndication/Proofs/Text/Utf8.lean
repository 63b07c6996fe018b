import Syndication.Text.Utf8

/-!
# Proofs.Text.Utf8 — octets give back the text they were made of

The reader is a machine that owes octets. Fed the octets of one character it owes nothing before and
nothing after, and completes that character: one case for each number of octets. The octets of a text
are therefore read as its characters, and both decodings give the text back.

## Contents
* `le_ofNat`, `step_last`, `step_owed`     — one octet of a character that has begun
* `fresh_one` … `fresh_four`               — the first octet of a character
* `symbolsFrom_char`                     — one character
* `symbols_encode`, `decodeLossy_encode` — whole texts
-/

namespace Syndication.Utf8

/-! ## One octet -/

theorem le_ofNat {a n : Nat} (ha : a < 256) (hn : n < 256) :
    UInt8.ofNat a ≤ UInt8.ofNat n ↔ a ≤ n := by
  rw [UInt8.le_iff_toNat_le, UInt8.toNat_ofNat', UInt8.toNat_ofNat', Nat.mod_eq_of_lt ha,
    Nat.mod_eq_of_lt hn]

/-- An octet between the bounds is taken; it completes the character if it is the last one owed. -/
theorem step_between {n low high owed value : Nat} (hn : low ≤ n) (hn' : n ≤ high)
    (hh : high < 256) :
    step (some ⟨owed, .ofNat low, .ofNat high, value⟩) (.ofNat n) =
      if owed = 1 then ([some (Char.ofNat (value * 64 + (n - 0x80)))], none)
      else ([], some ⟨owed - 1, 0x80, 0xBF, value * 64 + (n - 0x80)⟩) := by
  have hlow : UInt8.ofNat low ≤ UInt8.ofNat n := (le_ofNat (by omega) (by omega)).mpr hn
  have hhigh : UInt8.ofNat n ≤ UInt8.ofNat high := (le_ofNat (by omega) hh).mpr hn'
  have hval : (UInt8.ofNat n).toNat = n := by
    rw [UInt8.toNat_ofNat', Nat.mod_eq_of_lt (by omega)]
  simp only [step, hlow, hhigh, and_self, if_true, hval]

theorem step_last {n value : Nat} (hn : 0x80 ≤ n) (hn' : n ≤ 0xBF) :
    step (some ⟨1, 0x80, 0xBF, value⟩) (.ofNat n) =
      ([some (Char.ofNat (value * 64 + (n - 0x80)))], none) :=
  step_between hn hn' (by decide : 0xBF < 256)

theorem step_owed {n owed value : Nat} (hn : 0x80 ≤ n) (hn' : n ≤ 0xBF) (ho : owed ≠ 1) :
    step (some ⟨owed, 0x80, 0xBF, value⟩) (.ofNat n) =
      ([], some ⟨owed - 1, 0x80, 0xBF, value * 64 + (n - 0x80)⟩) := by
  rw [show (0x80 : UInt8) = .ofNat 0x80 from rfl, show (0xBF : UInt8) = .ofNat 0xBF from rfl,
    step_between hn hn' (by omega), if_neg ho]
  rfl

theorem fresh_one {n : Nat} (hn : n < 0x80) :
    fresh (.ofNat n) = ([some (Char.ofNat n)], none) := by
  have h : ∀ k < 0x80, fresh (.ofNat k) = ([some (Char.ofNat k)], none) := by decide
  exact h n hn

theorem fresh_two {n : Nat} (hn : 2 ≤ n) (hn' : n < 32) :
    fresh (.ofNat (n + 0xC0)) = ([], some ⟨1, 0x80, 0xBF, n⟩) := by
  have h : ∀ k < 32, 2 ≤ k → fresh (.ofNat (k + 0xC0)) = ([], some ⟨1, 0x80, 0xBF, k⟩) := by
    decide
  exact h n hn' hn

theorem fresh_three {n : Nat} (hn : n < 16) :
    fresh (.ofNat (n + 0xE0)) = ([], some ⟨2, .ofNat (if n = 0 then 0xA0 else 0x80),
      .ofNat (if n = 0xD then 0x9F else 0xBF), n⟩) := by
  have h : ∀ k < 16, fresh (.ofNat (k + 0xE0)) =
      ([], some ⟨2, .ofNat (if k = 0 then 0xA0 else 0x80),
        .ofNat (if k = 0xD then 0x9F else 0xBF), k⟩) := by decide
  exact h n hn

theorem fresh_four {n : Nat} (hn : n < 5) :
    fresh (.ofNat (n + 0xF0)) = ([], some ⟨3, .ofNat (if n = 0 then 0x90 else 0x80),
      .ofNat (if n = 4 then 0x8F else 0xBF), n⟩) := by
  have h : ∀ k < 5, fresh (.ofNat (k + 0xF0)) =
      ([], some ⟨3, .ofNat (if k = 0 then 0x90 else 0x80),
        .ofNat (if k = 4 then 0x8F else 0xBF), k⟩) := by decide
  exact h n hn

/-! ## One character -/

theorem symbolsFrom_cons (st : Option Pending) (b : UInt8) (rest : Bytes) :
    symbolsFrom st (b :: rest) = (step st b).1 ++ symbolsFrom (step st b).2 rest := by
  cases st <;> rfl

/-- The number of a character lies outside the surrogates and below `0x110000`. -/
theorem char_range (c : Char) :
    c.val.toNat < 0xD800 ∨ (0xDFFF < c.val.toNat ∧ c.val.toNat < 0x110000) := c.valid

/-- **One character.** Its octets complete it and leave nothing owed. -/
theorem symbolsFrom_char (c : Char) (rest : Bytes) :
    symbolsFrom none (String.utf8EncodeChar c ++ rest) = some c :: symbolsFrom none rest := by
  have hrange := char_range c
  have hc : Char.ofNat c.val.toNat = c := Char.ofNat_toNat c
  unfold String.utf8EncodeChar
  generalize c.val.toNat = v at hrange hc ⊢
  -- by the number of octets: each behind the first one completes six bits more
  by_cases h1 : v ≤ 0x7f
  · simp only [h1, if_true, List.cons_append, List.nil_append, symbolsFrom_cons, step,
      fresh_one (show v < 0x80 by omega), hc]
  by_cases h2 : v ≤ 0x7ff
  · simp only [h1, h2, if_true, if_false, List.cons_append, List.nil_append, symbolsFrom_cons,
      step.eq_1, fresh_two (show 2 ≤ v / 64 % 0x20 by omega) (by omega)]
    rw [step_last (by omega) (by omega)]
    have hv : v / 64 % 0x20 * 64 + (v % 0x40 + 0x80 - 0x80) = v := by omega
    rw [hv, hc]
    rfl
  by_cases h3 : v ≤ 0xffff
  · simp only [h1, h2, h3, if_true, if_false, List.cons_append, List.nil_append, symbolsFrom_cons,
      step.eq_1, fresh_three (show v / 4096 % 0x10 < 16 by omega)]
    rw [step_between (by split <;> omega) (by split <;> omega) (by split <;> omega)]
    simp only [show (2 : Nat) ≠ 1 by decide, if_false]
    rw [step_last (by omega) (by omega)]
    have hv : (v / 4096 % 0x10 * 64 + (v / 64 % 0x40 + 0x80 - 0x80)) * 64 +
        (v % 0x40 + 0x80 - 0x80) = v := by omega
    rw [hv, hc]
    rfl
  · simp only [h1, h2, h3, if_false, List.cons_append, List.nil_append, symbolsFrom_cons,
      step.eq_1, fresh_four (show v / 262144 % 0x08 < 5 by omega)]
    rw [step_between (by split <;> omega) (by split <;> omega) (by split <;> omega)]
    simp only [show (3 : Nat) ≠ 1 by decide, if_false]
    rw [step_owed (by omega) (by omega) (by decide)]
    rw [step_last (by omega) (by omega)]
    have hv : ((v / 262144 % 0x08 * 64 + (v / 4096 % 0x40 + 0x80 - 0x80)) * 64 +
        (v / 64 % 0x40 + 0x80 - 0x80)) * 64 + (v % 0x40 + 0x80 - 0x80) = v := by omega
    rw [hv, hc]
    rfl

/-! ## Whole texts -/

theorem symbolsFrom_chars (cs : List Char) :
    symbolsFrom none (cs.flatMap String.utf8EncodeChar) = cs.map some := by
  induction cs with
  | nil => rfl
  | cons c cs ih => rw [List.flatMap_cons, symbolsFrom_char, ih, List.map_cons]

/-- **The octets of a text are read as its characters.** -/
theorem symbols_encode (s : String) : symbols (encode s) = s.toList.map some :=
  symbolsFrom_chars s.toList

/-- Reading with replacements gives a text back. -/
@[simp] theorem decodeLossy_encode (s : String) : decodeLossy (encode s) = s := by
  unfold decodeLossy
  rw [symbols_encode, List.map_map]
  have hid : (fun o : Symbol => o.getD '\uFFFD') ∘ some = id := rfl
  rw [hid, List.map_id, String.ofList_toList]

end Syndication.Utf8
