import Syndication.Text.Hex

/-!
# Proofs.Text.Hex — octets and the digits that spell them

A character is a digit exactly if it stands in one of the two rows of sixteen, and its value is its
place there. Octets are spelled by two digits each, in either case, and the reader accepts a text
exactly if it spells octets, which then are those it gives.

## Contents
* `IsDigitOf`, `value?_eq_some_iff`, `isDigitOf_digit`   — one digit
* `Spells`, `decode?_eq_some_iff`, `length_of_spells`    — whole octets
* `spells_encode`, `decode?_encode`                      — octets as they are written
-/

namespace Syndication.Hex

/-! ## One digit -/

/-- The character stands for the value, in lower or in upper case. -/
def IsDigitOf (c : Char) (n : Nat) : Prop :=
  "0123456789abcdef".toList[n]? = some c ∨ "0123456789ABCDEF".toList[n]? = some c

theorem lt_of_isDigitOf {c : Char} {n : Nat} (h : IsDigitOf c n) : n < 16 := by
  rcases h with h | h
  · exact (List.getElem?_eq_some_iff.mp h).1
  · exact (List.getElem?_eq_some_iff.mp h).1

/-- The digit that is written for a value stands for it. -/
theorem isDigitOf_digit {n : Nat} (h : n < 16) : IsDigitOf (digit n) n := by
  have hrow : ∀ n < 16, "0123456789abcdef".toList[n]? = some (digit n) := by decide
  exact .inl (hrow n h)

/-- A character between two others has a code between theirs. -/
theorem toNat_mem_of_le {a b c : Char} (h : a ≤ c ∧ c ≤ b) : a.toNat ≤ c.toNat ∧ c.toNat ≤ b.toNat :=
  ⟨UInt32.le_iff_toNat_le.mp h.1, UInt32.le_iff_toNat_le.mp h.2⟩

/-- Both rows of digits, read off character by character. -/
theorem value?_of_isDigitOf {c : Char} {n : Nat} (h : IsDigitOf c n) : value? c = some n := by
  have hn : n < 16 := lt_of_isDigitOf h
  have hlower : ∀ n < 16, ("0123456789abcdef".toList[n]?).bind value? = some n := by decide
  have hupper : ∀ n < 16, ("0123456789ABCDEF".toList[n]?).bind value? = some n := by decide
  rcases h with h | h
  · simpa only [h, Option.bind_some] using hlower n hn
  · simpa only [h, Option.bind_some] using hupper n hn

/-- The three ranges of codes that have a value, each a part of a row. -/
theorem isDigitOf_of_value? {c : Char} {n : Nat} (h : value? c = some n) : IsDigitOf c n := by
  have hdecimal : ∀ k < 10, "0123456789abcdef".toList[k]? = some (Char.ofNat (48 + k)) := by decide
  have hlower : ∀ k < 6, "0123456789abcdef".toList[10 + k]? = some (Char.ofNat (97 + k)) := by decide
  have hupper : ∀ k < 6, "0123456789ABCDEF".toList[10 + k]? = some (Char.ofNat (65 + k)) := by decide
  unfold value? at h
  split at h
  · rename_i hrange
    obtain ⟨hlo, hhi⟩ := toNat_mem_of_le hrange
    change 48 ≤ c.toNat at hlo
    change c.toNat ≤ 57 at hhi
    have hrow := hdecimal (c.toNat - 48) (by omega)
    rw [Nat.add_sub_cancel' hlo, Char.ofNat_toNat] at hrow
    exact Option.some.inj h ▸ .inl hrow
  split at h
  · rename_i hrange
    obtain ⟨hlo, hhi⟩ := toNat_mem_of_le hrange
    change 97 ≤ c.toNat at hlo
    change c.toNat ≤ 102 at hhi
    have hrow := hlower (c.toNat - 97) (by omega)
    rw [Nat.add_sub_cancel' hlo, Char.ofNat_toNat] at hrow
    have hn : n = 10 + (c.toNat - 97) := by have := Option.some.inj h; omega
    exact hn ▸ .inl hrow
  split at h
  · rename_i hrange
    obtain ⟨hlo, hhi⟩ := toNat_mem_of_le hrange
    change 65 ≤ c.toNat at hlo
    change c.toNat ≤ 70 at hhi
    have hrow := hupper (c.toNat - 65) (by omega)
    rw [Nat.add_sub_cancel' hlo, Char.ofNat_toNat] at hrow
    have hn : n = 10 + (c.toNat - 65) := by have := Option.some.inj h; omega
    exact hn ▸ .inr hrow
  · cases h

/-- **A digit has a value** exactly if it stands for it. -/
theorem value?_eq_some_iff {c : Char} {n : Nat} : value? c = some n ↔ IsDigitOf c n :=
  ⟨isDigitOf_of_value?, value?_of_isDigitOf⟩

/-! ## Whole octets -/

/-- Characters that spell octets, two digits each: the high half first, then the low half. -/
inductive Spells : List Char → Bytes → Prop
  | nil : Spells [] []
  | octet {hi lo : Char} {cs : List Char} {b : UInt8} {bytes : Bytes}
      (high : IsDigitOf hi (b.toNat / 16)) (low : IsDigitOf lo (b.toNat % 16))
      (rest : Spells cs bytes) : Spells (hi :: lo :: cs) (b :: bytes)

theorem length_of_spells {cs : List Char} {bytes : Bytes} (h : Spells cs bytes) :
    cs.length = 2 * bytes.length := by
  induction h with
  | nil => rfl
  | octet _ _ _ ih => simp only [List.length_cons, ih]; omega

theorem isDigit_of_spells {cs : List Char} {bytes : Bytes} (h : Spells cs bytes) :
    ∀ c ∈ cs, ∃ n, IsDigitOf c n := by
  induction h with
  | nil => simp
  | octet high low _ ih =>
    rintro c (_ | ⟨_, _ | ⟨_, hc⟩⟩)
    · exact ⟨_, high⟩
    · exact ⟨_, low⟩
    · exact ih c hc

theorem decodeChars?_of_spells {cs : List Char} {bytes : Bytes} (h : Spells cs bytes) :
    decodeChars? cs = some bytes := by
  induction h with
  | nil => rfl
  | @octet hi lo cs b bytes high low _ ih =>
    have hhalves : UInt8.ofNat (16 * (b.toNat / 16) + b.toNat % 16) = b := by
      rw [Nat.div_add_mod, UInt8.ofNat_toNat]
    rw [decodeChars?, value?_of_isDigitOf high, value?_of_isDigitOf low, ih]
    exact congrArg (fun b => some (b :: bytes)) hhalves

theorem spells_of_decodeChars? {cs : List Char} {bytes : Bytes} (h : decodeChars? cs = some bytes) :
    Spells cs bytes := by
  induction cs using decodeChars?.induct generalizing bytes with
  | case1 =>
    obtain rfl := Option.some.inj h
    exact .nil
  | case2 hi lo rest ih =>
    simp only [decodeChars?, Option.bind_eq_bind, Option.bind_eq_some_iff] at h
    obtain ⟨high, hhigh, low, hlow, tail, htail, h⟩ := h
    obtain rfl := Option.some.inj h
    rw [value?_eq_some_iff] at hhigh hlow
    have hhighLt : high < 16 := lt_of_isDigitOf hhigh
    have hlowLt : low < 16 := lt_of_isDigitOf hlow
    have hnat : (UInt8.ofNat (16 * high + low)).toNat = 16 * high + low := by
      rw [UInt8.toNat_ofNat']
      exact Nat.mod_eq_of_lt (by omega)
    refine .octet ?_ ?_ (ih htail)
    · have hdiv : (16 * high + low) / 16 = high := by omega
      rwa [hnat, hdiv]
    · have hmod : (16 * high + low) % 16 = low := by omega
      rwa [hnat, hmod]
  | case3 => cases h

/-- **A text is read as octets** exactly if it spells them. -/
theorem decode?_eq_some_iff {s : String} {bytes : Bytes} :
    decode? s = some bytes ↔ Spells s.toList bytes :=
  ⟨spells_of_decodeChars?, decodeChars?_of_spells⟩

/-! ## Octets as they are written -/

theorem spells_encodeChars (bytes : Bytes) : Spells (encodeChars bytes) bytes := by
  induction bytes with
  | nil => exact .nil
  | cons b bytes ih =>
    have hb : b.toNat < 256 := b.toNat_lt
    exact .octet (isDigitOf_digit (by omega)) (isDigitOf_digit (by omega)) ih

theorem spells_encode (bytes : Bytes) : Spells (encode bytes).toList bytes := by
  rw [encode, String.toList_ofList]
  exact spells_encodeChars bytes

/-- **Octets come back** from the digits they are written in. -/
theorem decode?_encode (bytes : Bytes) : decode? (encode bytes) = some bytes :=
  decode?_eq_some_iff.mpr (spells_encode bytes)

end Syndication.Hex
