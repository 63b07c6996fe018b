import Syndication.Http.Target
import Syndication.Submission
import Syndication.Webhook.Ingest

/-!
# Api — the service over HTTP

Posts are submitted to `/post`, providers call `/webhook/` and their name, and `/health` answers while
the service runs. Failures have a JSON body with their wording, except for those inside the service,
whose wording is nobody's business.

## Contents
* `errorResponse`, `webhookErrorResponse`
* `Route`, `route`
* `respond`
-/

namespace Syndication.Api

open Http (Request Response)

/-! ## Failures -/

/-- A failure with its wording. -/
def failure (status : Nat) (message : String) : Response :=
  .json status (Json.record [("error", .text message)]).compact

/-- A failure inside the service. -/
def internalError : Response := failure 500 "internal error"

/-- The response for a failed submission. -/
def errorResponse (e : Error) : Response :=
  match e with
  | .unauthorized _ => failure 401 e.message
  | .invalidInput _ | .serialization _ => failure 400 e.message
  | .notFound _ => failure 404 e.message
  | _ => internalError

/-- The response for a refused callback. -/
def webhookErrorResponse : WebhookError → Response
  | .unauthorized detail => failure 403 detail
  | .badRequest detail => failure 400 detail
  | .unknownProvider provider => failure 404 ("unknown provider " ++ provider)
  | .inside _ => internalError

/-! ## Routes -/

/-- Where a request goes. -/
inductive Route where
  | health
  | post
  | webhook (segment : String)
  | unknown
  deriving DecidableEq, Repr

/-- The route of a path. The name of a provider is one segment and not empty. -/
def route (path : String) : Route :=
  if path = "/health" then .health
  else if path = "/post" then .post
  else match Text.dropStart? "/webhook/" path with
    | some segment =>
      if segment.isEmpty || segment.toList.contains '/' then .unknown else .webhook segment
    | none => .unknown

/-! ## Responses -/

/-- The response to a body that is too long. -/
def tooLong : Response := .plain 413 "Failed to buffer the request body: length limit exceeded"

/-- The response to a provider's name that is no text. -/
def unreadableProvider : Response := .plain 400 "Invalid URL: Invalid UTF-8 in \x60provider\x60"

/-- Submits the post in a body. -/
def submitPost (body : Bytes) (s : Service) : Response × Service :=
  match (Json.ofBytes? body).bind PostRequest.ofJson? with
  | none => (failure 400 "invalid post request: not a request", s)
  | some request =>
    match (Submission.submit request).exec s with
    | (.ok receipt, s) => (.json 200 receipt.toJson.compact, s)
    | (.error e, s) => (errorResponse e, s)

/-- Takes the callback in a request. -/
def receiveCallback (provider : String) (r : Request) (s : Service) : Response × Service :=
  match Webhook.ingest provider r.headers r.body s with
  | (.ok (.challenge text), s) => (⟨200, some "text/plain", Utf8.encode text⟩, s)
  | (.ok _, s) => (.plain 200 "ok", s)
  | (.error e, s) => (webhookErrorResponse e, s)

/-- The response to a request. -/
def respond (r : Request) (s : Service) : Response × Service :=
  let isTooLong := s.config.server.maxBodySize < r.body.length
  match route (Http.path r.target) with
  | .unknown => (.bare 404, s)
  | .health =>
    if r.method = "GET" then (.plain 200 "ok", s)
    else if r.method = "HEAD" then ({ Response.plain 200 "ok" with body := [] }, s)
    else (.bare 405, s)
  | .post =>
    if r.method ≠ "POST" then (.bare 405, s)
    else if isTooLong then (tooLong, s)
    else submitPost r.body s
  | .webhook segment =>
    if r.method ≠ "POST" then (.bare 405, s)
    else match Http.segment? segment with
      | none => (unreadableProvider, s)
      | some provider => if isTooLong then (tooLong, s) else receiveCallback provider r s

end Syndication.Api
