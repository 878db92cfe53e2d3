import LintMend.Editor.Diagnostic
import LintMend.Editor.Uri
import LintMend.Log

/-!
# Messages between an editor and the server

What an editor says, and what it hears: answers to its requests, and notices that come unasked. The
members of what it hears are in alphabetical order.
-/

namespace LintMend

/-- A message of the editor; a request has an identity, a notice has none. -/
structure Message where
  method : String
  params : Option Json
  id : Option Json

/-- A value that names no method is no message. -/
def Message.ofJson? (json : Json) : Option Message :=
  ((json.get? "method").bind Json.str?).map fun method ↦
    ⟨method, json.get? "params", json.get? "id"⟩

/-- Why a request has no result. -/
inductive Refusal where
  /-- What was sent is no JSON. -/
  | unreadable
  | notInitialized
  /-- The request does not fit what was said before. -/
  | invalidRequest
  | invalidParams (method : String)
  /-- The method is known, but not offered. -/
  | notOffered
  | unknownMethod (name : String)
deriving DecidableEq, Repr

namespace Refusal

def code : Refusal → Int
  | unreadable => -32700
  | notInitialized => -32002
  | invalidRequest => -32600
  | invalidParams _ => -32602
  | notOffered => -32601
  | unknownMethod _ => -32601

def message : Refusal → String
  | unreadable => "Parse error"
  | notInitialized => "Server not initialized"
  | invalidRequest => "Invalid request"
  | invalidParams method => s!"Invalid params for {method}"
  | notOffered => "Method not found"
  | unknownMethod _ => "Method not found"

def data? : Refusal → Option Json
  | unknownMethod name => some (.str name)
  | _ => none

def toJson (r : Refusal) : Json :=
  .obj ([("code", .int r.code), ("message", .str r.message)]
    ++ (r.data?.map fun data ↦ ("data", data)).toList)

end Refusal

abbrev Answer := Except Refusal Json

def Answer.toJson (id : Json) (answer : Answer) : Json :=
  let outcome := match answer with
    | .ok result => ("result", result)
    | .error refusal => ("error", refusal.toJson)
  .obj [("jsonrpc", .str "2.0"), outcome, ("id", id)]

inductive LogLevel where
  | error
  | warning
  | information
deriving DecidableEq, Repr

def LogLevel.number : LogLevel → Nat
  | error => 1
  | warning => 2
  | information => 3

/-- What the server tells the editor unasked. -/
inductive Sent where
  | log (level : LogLevel) (message : String)
  | diagnostics (uri : Uri) (found : List Diagnostic)

namespace Sent

def toJson (sent : Sent) : Json :=
  let (method, params) := match sent with
    | log level message => ("window/logMessage",
        [("message", .str message), ("type", Json.nat level.number)])
    | diagnostics uri found => ("textDocument/publishDiagnostics",
        [("diagnostics", .arr (found.map Diagnostic.toJson)), ("uri", .str uri.render)])
  .obj [("jsonrpc", .str "2.0"), ("method", .str method), ("params", .obj params)]

end Sent

/-- What comes of one message, with the entries it adds to the debug log. -/
structure Reply where
  answer : Option Answer
  sent : List Sent
  log : Log

namespace Reply

def silent : Reply := ⟨none, [], []⟩

def result (json : Json) (log : Log) : Reply := ⟨some (.ok json), [], log⟩

def refused (refusal : Refusal) : Reply := ⟨some (.error refusal), [], []⟩

end Reply

end LintMend
