import Syndication.Error
import Syndication.Http.Status
import Syndication.Job.Basic
import Syndication.Text.Utf16

/-!
# Platform.Hook — delivering by a request to an address

A hook is an address that takes jobs as JSON documents. An accepted request may be answered by a
delivery report. A refusal is told apart by its status: overload and broken servers are worth
another attempt, wrong credentials and wrong posts are not. A request that ran into the time limit
may have been taken all the same, so it is not repeated.

## Contents
* `HookAnswer`, `Endpoint`, `HookRequest`, `Hook`
* `hookDocument`
* `classifyStatus`, `DeliveryReport.ofBody`, `HookAnswer.result`
-/

namespace Syndication

/-! ## What is at the other end -/

/-- The answer to one request. -/
structure HookAnswer where
  status : Nat
  body : Bytes
  delay : Span := Span.zero
  /-- The connection is closed without an answer. -/
  closes : Bool := false
  deriving Repr

/-- What an address leads to. -/
inductive Endpoint where
  /-- Nobody. -/
  | unreachable
  /-- A server that gives these answers in turn and the last one again and again. -/
  | listening (answers : List HookAnswer)
  deriving Repr

namespace Endpoint

/-- The answer to the next request, if there is one. -/
def next? : Endpoint → Option HookAnswer
  | .unreachable => none
  | .listening answers => answers.head?

/-- The endpoint after one more request. -/
def advance : Endpoint → Endpoint
  | .listening (_ :: a :: rest) => .listening (a :: rest)
  | e => e

end Endpoint

/-- A request as the endpoint receives it. -/
structure HookRequest where
  contentType : String
  userAgent : String
  body : String
  deriving DecidableEq, Repr

/-- A platform that is reached by requests to an endpoint. -/
structure Hook where
  id : String
  endpoint : Endpoint
  timeout : Span
  received : List HookRequest := []
  deriving Repr

/-! ## Requests -/

/-- How the sender of a request calls itself. -/
def hookUserAgent : String := "crosspost/0.1.0"

/-- The document that a delivery sends. -/
def hookDocument (job : Job) (content : PostContent) (attempt : Nat) : String :=
  (Json.record [("job", job.toJson), ("content", content.toJson), ("attempt", .int attempt)]).compact

/-- The request of a delivery. -/
def hookRequest (job : Job) (content : PostContent) (attempt : Nat) : HookRequest :=
  ⟨"application/json", hookUserAgent, hookDocument job content attempt⟩

/-! ## Answers -/

/-- How much of a refusal's body is kept, in characters. -/
def keptDetail : Nat := 200

/-- The failure that a refusal stands for. -/
def classifyStatus (status : Nat) (body : String) : PlatformError :=
  let detail := if body.isEmpty then Http.statusText status
    else Http.statusText status ++ ": " ++ String.ofList (body.toList.take keptDetail)
  if status = 429 then .rateLimit detail
  else if status = 408 then .network detail
  else if status = 401 ∨ status = 403 then .authentication detail
  else if Http.isServerError status then .network detail
  else .posting detail

/-- The report that an accepted request is answered with. A blank body reports nothing; a body that is
no report is reported as a failed part. -/
def DeliveryReport.ofBody (body : String) : DeliveryReport :=
  if Text.isBlankText body then {}
  else match (Json.ofText? body).bind DeliveryReport.ofJson? with
    | some report => report
    | none => { failedParts := [⟨"response", "unreadable delivery report: not a report"⟩] }

/-- The text of an answer's body. Some answers have none, whatever is sent. -/
def HookAnswer.text (a : HookAnswer) : String :=
  if Http.hasBody a.status then Text.ofMarked a.body else ""

/-- What a delivery learns from an answer. -/
def HookAnswer.result (a : HookAnswer) : Except PlatformError DeliveryReport :=
  let body := a.text
  if Http.isSuccess a.status then .ok (.ofBody body) else .error (classifyStatus a.status body)

end Syndication
