import Syndication.Identifier

/-!
# Proofs.Identifier — fresh identifiers are new and path-safe

An identifier spells a number in hexadecimal digits, and the number can be read back from them. So two
identifiers drawn from one counter differ, however many have been drawn, and each of them may stand in
an object key.

## Contents
* `Hex.toNat?_ofNat`                    — a number read back from its digits
* `Issuer.idOf_injective`               — no identifier is drawn twice
* `isPathSafe_iff`, `isPathSafe_idOf`   — what may stand in a key
-/

namespace Syndication

namespace Hex

theorem value?_digitChar : ∀ d < 16, value? d.digitChar = some d := by decide

theorem toNat?_append (as bs : List Char) :
    toNat? (as ++ bs) = (toNat? as).bind fun n => bs.foldlM (fun n c => (value? c).map (16 * n + ·)) n :=
  List.foldlM_append ..

theorem toNat?_toDigits (n : Nat) : toNat? (Nat.toDigits 16 n) = some n := by
  induction n using Nat.strongRecOn with
  | ind n ih =>
    rw [Nat.toDigits_eq_if (by decide)]
    split
    · rename_i hlt
      simp [toNat?, value?_digitChar n hlt]
    · rename_i hge
      rw [toNat?_append, ih (n / 16) (by omega)]
      simp [value?_digitChar (n % 16) (by omega)]
      omega

/-- Zeros in front do not change the number. -/
theorem toNat?_zeros (k : Nat) (cs : List Char) : toNat? (List.replicate k '0' ++ cs) = toNat? cs := by
  induction k with
  | zero => rfl
  | succ k ih =>
    have hzero : value? '0' = some 0 := by decide
    rw [List.replicate_succ, List.cons_append, toNat?, List.foldlM_cons, hzero]
    exact ih

/-- **A number is read back from its digits.** -/
theorem toNat?_ofNat (width n : Nat) : toNat? (ofNat width n).toList = some n := by
  rw [ofNat, String.toList_ofList, toNat?_zeros, toNat?_toDigits]

theorem exists_digit_of_mem_toDigits {n : Nat} {c : Char} (h : c ∈ Nat.toDigits 16 n) :
    ∃ d < 16, c = d.digitChar := by
  induction n using Nat.strongRecOn with
  | ind n ih =>
    rw [Nat.toDigits_eq_if (by decide)] at h
    split at h
    · rename_i hlt
      exact ⟨n, hlt, List.mem_singleton.mp h⟩
    · rename_i hge
      rcases List.mem_append.mp h with h | h
      · exact ih (n / 16) (by omega) h
      · exact ⟨n % 16, by omega, List.mem_singleton.mp h⟩

theorem exists_digit_of_mem_ofNat {width n : Nat} {c : Char} (h : c ∈ (ofNat width n).toList) :
    ∃ d < 16, c = d.digitChar := by
  rw [ofNat, String.toList_ofList, List.mem_append] at h
  rcases h with h | h
  · exact ⟨0, by decide, List.eq_of_mem_replicate h⟩
  · exact exists_digit_of_mem_toDigits h

end Hex

/-! ## What may stand in a key -/

theorem isPathSafe_iff (s : String) :
    isPathSafe s = true ↔ s ≠ "" ∧ hasTwoDots s.toList = false ∧ ∀ c ∈ s.toList, isPathSafeChar c := by
  simp [isPathSafe, and_assoc]

theorem hasTwoDots_eq_false {cs : List Char} (h : '.' ∉ cs) : hasTwoDots cs = false := by
  induction cs with
  | nil => rfl
  | cons c cs ih =>
    have hc : c ≠ '.' := fun hc => h (hc ▸ List.mem_cons_self)
    rw [hasTwoDots.eq_2 _ _ (by rintro rest rfl; exact fun _ => hc rfl)]
    exact ih fun hm => h (List.mem_cons_of_mem c hm)

theorem isPathSafeChar_digitChar :
    ∀ d < 16, isPathSafeChar d.digitChar = true ∧ d.digitChar ≠ '.' := by decide

/-- A number in hexadecimal digits may stand in a key. -/
theorem isPathSafe_ofNat (width n : Nat) : isPathSafe (Hex.ofNat width n) = true := by
  have hsafe : ∀ c ∈ (Hex.ofNat width n).toList, isPathSafeChar c = true ∧ c ≠ '.' := by
    intro c hc
    obtain ⟨d, hd, rfl⟩ := Hex.exists_digit_of_mem_ofNat hc
    exact isPathSafeChar_digitChar d hd
  refine (isPathSafe_iff _).mpr ⟨?_, ?_, fun c hc => (hsafe c hc).1⟩
  · intro hempty
    have hlen := congrArg (fun s => s.toList.length) hempty
    simp [Hex.ofNat] at hlen
  · exact hasTwoDots_eq_false fun hdot => (hsafe '.' hdot).2 rfl

namespace Issuer

/-- **No identifier is drawn twice.** -/
theorem idOf_injective (s : Issuer) : Function.Injective s.idOf := by
  intro i j h
  have hsum : some (s.idSeed + i) = some (s.idSeed + j) := by
    rw [← Hex.toNat?_ofNat 32, ← Hex.toNat?_ofNat 32]
    exact congrArg (fun id => Hex.toNat? id.toList) h
  have := Option.some.inj hsum
  omega

/-- A fresh identifier may stand in a key. -/
@[simp] theorem isPathSafe_idOf (s : Issuer) (n : Nat) : isPathSafe (s.idOf n) = true :=
  isPathSafe_ofNat 32 _

end Issuer
end Syndication
