import Syndication.Digest.Sha256

/-!
# Digest.Hmac — a digest under a secret key

The keyed hash of RFC 2104 over SHA-256: the key, brought to the length of a block, is mixed in
before the message and again before the digest of that.

## Contents
* `blockKey`    — the key in 64 octets
* `hmacSha256`  — the tag of a message, 32 octets
-/

namespace Syndication.Digest

/-- A key of 64 octets: longer keys are digested, shorter ones filled with zeros. -/
def blockKey (key : Bytes) : Bytes :=
  let key := if key.length ≤ 64 then key else sha256 key
  key ++ List.replicate (64 - key.length) 0

/-- The tag of a message under a key. -/
def hmacSha256 (key message : Bytes) : Bytes :=
  let k := blockKey key
  sha256 (k.map (· ^^^ 0x5c) ++ sha256 (k.map (· ^^^ 0x36) ++ message))

end Syndication.Digest
