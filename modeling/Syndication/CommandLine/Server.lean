import Syndication.Api
import Syndication.CommandLine.Program

/-!
# CommandLine.Server — the program that serves requests

The program opens the service and listens on an address. Where it cannot listen it ends with an
error.

## Contents
* `arguments`, `run`
-/

namespace Syndication.CommandLine.Server

def name : String := "crosspost-api"

/-- How the program is used, in a line. -/
def usage : String := "Usage: " ++ name ++ " [--bind ADDR] [-v]"

/-- The options. -/
def arguments : Command :=
  .leaf [{ name := "bind" }, { name := "verbose", short := some 'v', takesValue := false }] 0

/-- The address to listen on: that of the command line, or that of the configuration. -/
def address (a : Arguments) (c : Config) : String := (a.value? "bind").getD c.server.bind

/-- Requests answered one after the other. -/
def serve (s : Service) : List Http.Request → List Http.Response × Service
  | [] => ([], s)
  | r :: rest =>
    let (response, s) := Api.respond r s
    let (responses, s) := serve s rest
    (response :: responses, s)

/-- Runs the program on the requests that arrive at an address, if it can be listened on; `listen`
tells why it cannot be. -/
def run (args : List String) (listen : String → Except String (List Http.Request))
    (setting : Setting) : Ending × List Http.Response × Option Service :=
  match Arguments.parse [] arguments args with
  | .error halt => (halt.ending name usage, [], none)
  | .ok a =>
    match setting.start with
    | .error e => (.ofError e, [], none)
    | .ok s =>
      let addr := address a s.config
      match listen addr with
      | .error reason => (.failure 1 ("failed to bind " ++ addr ++ ": " ++ reason), [], some s)
      | .ok requests =>
        let (responses, s) := serve s requests
        match finish (do let _ ← Service.onSessions Session.flushAll; return {}) s with
        | (ending, s) => (ending, responses, some s)

end Syndication.CommandLine.Server
