import Syndication.Digest.ConstantTime
import Syndication.Effect
import Syndication.Post
import Syndication.Text.Shown

/-!
# ApiKey — who may post

A user may have any number of keys, each with a token. A credential names the user and the key; it
may leave the token out, but a token that it brings must be the right one.

## Contents
* `ApiKey`, `KeyRing`, `insert`, `token?`, `delete`, `list`
* `KeyRing.authenticate`
* `GeneratedKey`, and what log records show of secrets
-/

namespace Syndication

/-- A key of a user. -/
structure ApiKey where
  userId : String
  keyId : String
  token : String
  createdAt : Int
  deriving DecidableEq, Repr

/-- What is listed of a key: everything but its token. -/
def ApiKey.toJson (k : ApiKey) : Json :=
  .record [("userId", .text k.userId), ("keyId", .text k.keyId), ("createdAt", .int k.createdAt)]

/-- The keys of all users, in the order in which they were made. -/
structure KeyRing where
  keys : List ApiKey := []
  deriving Repr, Inhabited

namespace KeyRing

/-- The key is this one. -/
def isKey (userId keyId : String) (k : ApiKey) : Bool :=
  decide (k.userId = userId) && decide (k.keyId = keyId)

/-- A new key; the pair of user and key must be new. -/
def insert (k : ApiKey) : Effect KeyRing Unit := .ofFun fun r =>
  if r.keys.any (isKey k.userId k.keyId) then
    (.error (.database (.operation "this user has a key with this id")), r)
  else (.ok (), ⟨r.keys ++ [k]⟩)

/-- The token of a key. -/
def token? (r : KeyRing) (userId keyId : String) : Option String :=
  (r.keys.find? (isKey userId keyId)).map (·.token)

/-- The ring without a key, and whether it was there. -/
def delete (r : KeyRing) (userId keyId : String) : Bool × KeyRing :=
  (r.keys.any (isKey userId keyId), ⟨r.keys.filter (!isKey userId keyId ·)⟩)

/-- By user, then by age; keys of one user and second by key id. -/
def isBefore (a b : ApiKey) : Bool :=
  if a.userId = b.userId then
    if a.createdAt = b.createdAt then a.keyId ≤ b.keyId else a.createdAt ≤ b.createdAt
  else a.userId ≤ b.userId

/-- The keys of one user, or of all. -/
def list (r : KeyRing) (user : Option String) : List ApiKey :=
  let wanted := r.keys.filter fun k => match user with
    | some u => decide (k.userId = u)
    | none => true
  wanted.mergeSort isBefore

/-- A credential is accepted if it names a key that exists and brings no wrong token. -/
def authenticate (r : KeyRing) (c : Credential) : Except Error Unit :=
  if c.userId.isEmpty || c.keyId.isEmpty then .error (.unauthorized "missing user or key id")
  else match r.token? c.userId c.keyId with
    | none => .error (.unauthorized "unknown api key")
    | some stored =>
      match c.token with
      | none => .ok ()
      | some token =>
        if Digest.constantTimeEq (Utf8.encode token) (Utf8.encode stored) then .ok ()
        else .error (.unauthorized "invalid api key")

end KeyRing

/-- A key as it is shown once, to who asked for it. -/
structure GeneratedKey where
  userId : String
  keyId : String
  token : String
  deriving DecidableEq

def GeneratedKey.toJson (k : GeneratedKey) : Json :=
  .record [("userId", .text k.userId), ("keyId", .text k.keyId), ("token", .text k.token)]

/-! ## What log records show -/

/-- What stands in a log record for a token. -/
def redacted : String := Text.shown "[REDACTED]"

/-- Fields of a record as a log shows them, under the name of the record. -/
def shownRecord (name : String) (fields : List (String × String)) : String :=
  name ++ " \x7b " ++ Text.joined ", " (fields.map fun (n, v) => n ++ ": " ++ v) ++ " \x7d"

/-- A credential without its token. -/
def Credential.shown (c : Credential) : String :=
  shownRecord "ApiKeyRef" [("user_id", Text.shown c.userId), ("key_id", Text.shown c.keyId),
    ("token", match c.token with
      | some _ => "Some(" ++ redacted ++ ")"
      | none => "None")]

/-- A generated key without its token. -/
def GeneratedKey.shown (k : GeneratedKey) : String :=
  shownRecord "GeneratedApiKey" [("user_id", Text.shown k.userId), ("key_id", Text.shown k.keyId),
    ("token", redacted)]

end Syndication
