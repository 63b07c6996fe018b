import Syndication.Json.Members
import Syndication.Text.Blank
import Syndication.Time.Stamp

/-!
# Post — content, credentials and requests

A client hands in a request: a credential, the content of a post, the targets it goes to and perhaps
an instant before which it must not be delivered. Clients of two generations write the members of a
request differently; both spellings are read, one is written.

## Contents
* `PostContent`, `PostContent.isEmpty`
* `Credential`, `PostRequest`, `PostRequest.content`
* their written forms
-/

namespace Syndication

/-- The instant that a JSON string holds in the loose notation. -/
def Instant.ofJson? (j : Json) : Option Instant := j.asText?.bind Stamp.loose?

/-- An instant as a JSON string. -/
def Instant.toJson (t : Instant) : Json := .text t.text

/-! ## Content -/

/-- What a post says, the same for every target. -/
structure PostContent where
  title : String := ""
  description : String := ""
  htmlDescription : String := ""
  tags : List String := []
  media : List String := []
  deriving DecidableEq, Repr, Inhabited

namespace PostContent

/-- Nothing to deliver: blank texts and no media. Tags alone are no content. -/
def isEmpty (c : PostContent) : Bool :=
  Text.isBlankText c.title && Text.isBlankText c.description && Text.isBlankText c.htmlDescription &&
    c.media.isEmpty

def toJson (c : PostContent) : Json :=
  .record [("title", .text c.title), ("description", .text c.description),
    ("htmlDescription", .text c.htmlDescription), ("tags", .texts c.tags), ("media", .texts c.media)]

def ofJson? (j : Json) : Option PostContent := do
  let m ← Json.Members.of?
    [["title"], ["description"], ["htmlDescription"], ["tags"], ["media"]] j
  return {
    title := ← m.withDefault 0 Json.asText? ""
    description := ← m.withDefault 1 Json.asText? ""
    htmlDescription := ← m.withDefault 2 Json.asText? ""
    tags := ← m.withDefault 3 (·.asList? Json.asText?) []
    media := ← m.withDefault 4 (·.asList? Json.asText?) [] }

end PostContent

/-! ## Credentials -/

/-- Who a client says it is: a user, one of that user's keys, and perhaps the key's token. -/
structure Credential where
  userId : String
  keyId : String
  token : Option String := none
  deriving DecidableEq, Repr, Inhabited

namespace Credential

/-- The spellings of the members. -/
def names : List (List String) :=
  [["userId", "UserID", "userID"], ["keyId", "ID", "id"], ["apiKey", "APIKey"]]

def toJson (c : Credential) : Json :=
  .record ([("userId", .text c.userId), ("keyId", .text c.keyId)] ++
    Json.member? "apiKey" .text c.token)

def ofJson? (j : Json) : Option Credential := do
  let m ← Json.Members.of? names j
  return {
    userId := ← m.required 0 Json.asText?
    keyId := ← m.required 1 Json.asText?
    token := ← m.optional 2 Json.asText? }

end Credential

/-! ## Requests -/

/-- A request to post. -/
structure PostRequest where
  credential : Credential
  targets : List String := []
  media : List String := []
  title : String := ""
  description : String := ""
  htmlDescription : String := ""
  tags : List String := []
  postAt : Option Instant := none
  deriving DecidableEq, Repr, Inhabited

namespace PostRequest

/-- The content of a request. -/
def content (r : PostRequest) : PostContent :=
  ⟨r.title, r.description, r.htmlDescription, r.tags, r.media⟩

/-- The spellings of the members. -/
def names : List (List String) :=
  [["apiKey", "APIKey"], ["targetPlatforms", "TargetPlatforms"], ["media", "Media"],
    ["title", "Title"], ["description", "Description"], ["htmlDescription", "HTMLDescription"],
    ["tags", "Tags"], ["postAt", "PostAt"]]

def toJson (r : PostRequest) : Json :=
  .record ([("apiKey", r.credential.toJson), ("targetPlatforms", .texts r.targets),
    ("media", .texts r.media), ("title", .text r.title), ("description", .text r.description),
    ("htmlDescription", .text r.htmlDescription), ("tags", .texts r.tags)] ++
    Json.member? "postAt" Instant.toJson r.postAt)

def ofJson? (j : Json) : Option PostRequest := do
  let m ← Json.Members.of? names j
  return {
    credential := ← m.required 0 Credential.ofJson?
    targets := ← m.withDefault 1 (·.asList? Json.asText?) []
    media := ← m.withDefault 2 (·.asList? Json.asText?) []
    title := ← m.withDefault 3 Json.asText? ""
    description := ← m.withDefault 4 Json.asText? ""
    htmlDescription := ← m.withDefault 5 Json.asText? ""
    tags := ← m.withDefault 6 (·.asList? Json.asText?) []
    postAt := ← m.optional 7 Instant.ofJson? }

end PostRequest
end Syndication
