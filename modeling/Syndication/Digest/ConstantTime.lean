import Syndication.Text.Utf8

/-!
# Digest.ConstantTime — comparing secrets

## Contents
* `constantTimeEq`   — equality that does not stop at the first difference
-/

namespace Syndication.Digest

/-- Equality of octets that looks at every one of them: the differences of all pairs are collected
and only then compared with zero. Values of different lengths differ. -/
def constantTimeEq (a b : Bytes) : Bool :=
  a.length == b.length && (a.zip b).foldl (fun acc (x, y) => acc ||| (x ^^^ y)) (0 : UInt8) == 0

end Syndication.Digest
