import Syndication.Digest.ConstantTime
import Syndication.Digest.Hmac

/-!
# Proofs.Digest — tags and their comparison

The comparison that looks at every octet decides equality: the differences it collects vanish
exactly if there is none. A tag has 32 octets whatever the key and the message.

## Contents
* `constantTimeEq_iff`                   — the comparison decides equality
* `length_sha256`, `length_hmacSha256`   — 32 octets
-/

namespace Syndication.Digest

/-! ## Comparison -/

/-- The differences collected vanish if none was there before and no pair differs. -/
theorem foldl_differences_eq_zero {a b : Bytes} (hlen : a.length = b.length) (acc : UInt8) :
    (a.zip b).foldl (fun acc (x, y) => acc ||| (x ^^^ y)) acc = 0 ↔ acc = 0 ∧ a = b := by
  induction a generalizing b acc with
  | nil =>
    obtain rfl := List.length_eq_zero_iff.mp hlen.symm
    simp
  | cons x a ih =>
    cases b with
    | nil => cases hlen
    | cons y b =>
      rw [List.zip_cons_cons, List.foldl_cons, ih (Nat.succ.inj hlen), UInt8.or_eq_zero_iff,
        UInt8.xor_eq_zero_iff, List.cons.injEq, and_assoc]

/-- **The comparison decides equality.** -/
theorem constantTimeEq_iff {a b : Bytes} : constantTimeEq a b = true ↔ a = b := by
  rw [constantTimeEq, Bool.and_eq_true, beq_iff_eq, beq_iff_eq]
  constructor
  · rintro ⟨hlen, hfold⟩
    exact ((foldl_differences_eq_zero hlen 0).mp hfold).2
  · rintro rfl
    exact ⟨rfl, (foldl_differences_eq_zero rfl 0).mpr ⟨rfl, rfl⟩⟩

/-! ## Length -/

@[simp] theorem length_bigEndian (width n : Nat) : (bigEndian width n).length = width := by
  simp [bigEndian]

/-- Eight words of four octets. -/
@[simp] theorem length_sha256 (message : Bytes) : (sha256 message).length = 32 := by
  simp [sha256]

@[simp] theorem length_hmacSha256 (key message : Bytes) : (hmacSha256 key message).length = 32 :=
  length_sha256 _

/-- The tag of a known message under a known key. -/
example : hmacSha256 (Utf8.encode "key")
      (Utf8.encode "The quick brown fox jumps over the lazy dog") =
    [0xf7, 0xbc, 0x83, 0xf4, 0x30, 0x53, 0x84, 0x24, 0xb1, 0x32, 0x98, 0xe6, 0xaa, 0x6f, 0xb1, 0x43,
      0xef, 0x4d, 0x59, 0xa1, 0x49, 0x46, 0x17, 0x59, 0x97, 0x47, 0x9d, 0xbc, 0x2d, 0x1a, 0x3c,
      0xd8] := by
  decide +kernel

end Syndication.Digest
