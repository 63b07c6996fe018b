import Syndication.Proofs.Digest
import Syndication.Proofs.Text.Hex
import Syndication.Proofs.Text.Pieces
import Syndication.Webhook.EventSub

/-!
# Proofs.Webhook.Signature — signature headers

A signature header is accepted exactly if it carries the tag of the callback, in 64 digits of either
case. So the header that is made for a callback is accepted for it, and for another callback or under
another secret only if the two have one tag.

## Contents
* `Carries`, `carries_iff_decode?`, `carries_signatureHeader`   — headers and the tags in them
* `verifySignature_iff_carries`
* `verifySignature_accepts_exactly`                             — what is accepted
-/

namespace Syndication.EventSub

variable {tag tag' : Bytes} {header : String}

/-! ## Headers and the tags in them -/

/-- The header is the name of the hash, an equals sign, and 64 digits of either case that spell the
tag. -/
def Carries (header : String) (tag : Bytes) : Prop :=
  ∃ digits : String, header = "sha256=" ++ digits ∧ digits.length = 64 ∧
    (∀ c ∈ digits.toList, ∃ n, Hex.IsDigitOf c n) ∧ Hex.Spells digits.toList tag

/-- A header carries the tag of 32 octets that is read behind its start. -/
theorem carries_iff_decode? (htag : tag.length = 32) :
    Carries header tag ↔ (Text.dropStart? "sha256=" header).bind Hex.decode? = some tag := by
  rw [Option.bind_eq_some_iff]
  constructor
  · rintro ⟨digits, hheader, -, -, hspells⟩
    exact ⟨digits, Text.dropStart?_eq_some_iff.mpr hheader, Hex.decode?_eq_some_iff.mpr hspells⟩
  · rintro ⟨digits, hheader, hdecode⟩
    have hspells : Hex.Spells digits.toList tag := Hex.decode?_eq_some_iff.mp hdecode
    have hlen : digits.length = 64 := by
      rw [← String.length_toList, Hex.length_of_spells hspells, htag]
    exact ⟨digits, Text.dropStart?_eq_some_iff.mp hheader, hlen, Hex.isDigit_of_spells hspells, hspells⟩

/-- A tag is carried by the header that is made for it, and by no other tag's. -/
theorem carries_signatureHeader (htag : tag.length = 32) :
    Carries (signatureHeader tag') tag ↔ tag' = tag := by
  have hdrop : Text.dropStart? "sha256=" (signatureHeader tag') = some (Hex.encode tag') :=
    Text.dropStart?_eq_some_iff.mpr rfl
  rw [carries_iff_decode? htag, hdrop, Option.bind_some, Hex.decode?_encode, Option.some.injEq]

/-! ## What is accepted -/

@[simp] theorem length_signature (secret : Bytes) (messageId timestamp : String) (body : Bytes) :
    (signature secret messageId timestamp body).length = 32 :=
  Digest.length_hmacSha256 ..

theorem verifySignature_iff_carries (secret : Bytes) (messageId timestamp : String) (body : Bytes) :
    verifySignature secret messageId timestamp body header = true ↔
      Carries header (signature secret messageId timestamp body) := by
  rw [carries_iff_decode? (length_signature ..), verifySignature]
  cases (Text.dropStart? "sha256=" header).bind Hex.decode? with
  | none => simp
  | some tag => rw [Digest.constantTimeEq_iff, Option.some.injEq]

/-- **What is accepted.** A header is accepted exactly if it carries the keyed hash of message id,
timestamp and body. The header made for a callback is accepted for that callback, and under any other
secret and for any other callback exactly if the two tags are equal. -/
theorem verifySignature_accepts_exactly (secret : Bytes) (messageId timestamp : String) (body : Bytes)
    (header : String) :
    (verifySignature secret messageId timestamp body header = true ↔
      Carries header
        (Digest.hmacSha256 secret (Utf8.encode messageId ++ Utf8.encode timestamp ++ body))) ∧
    verifySignature secret messageId timestamp body
      (signatureHeader (signature secret messageId timestamp body)) = true ∧
    ∀ (secret' : Bytes) (messageId' timestamp' : String) (body' : Bytes),
      verifySignature secret' messageId' timestamp' body'
          (signatureHeader (signature secret messageId timestamp body)) = true ↔
        signature secret messageId timestamp body = signature secret' messageId' timestamp' body' := by
  have haccepts : ∀ (secret' : Bytes) (messageId' timestamp' : String) (body' : Bytes),
      verifySignature secret' messageId' timestamp' body'
          (signatureHeader (signature secret messageId timestamp body)) = true ↔
        signature secret messageId timestamp body = signature secret' messageId' timestamp' body' := by
    intro secret' messageId' timestamp' body'
    rw [verifySignature_iff_carries, carries_signatureHeader (length_signature ..)]
  refine ⟨verifySignature_iff_carries secret messageId timestamp body, ?_, haccepts⟩
  exact (haccepts secret messageId timestamp body).mpr rfl

end Syndication.EventSub
