import LintMend.Editor.Document
import LintMend.Editor.Message
import LintMend.Editor.Method
import LintMend.Repair.File

/-!
# A server for an editor

The server takes one message at a time, answers it if it is a request, and may send notices to the
editor meanwhile. Before the handshake and after the shutdown it answers requests with errors and
drops notices; after the exit it takes no message at all. Lints that a message begins are completed
before the next one.
-/

namespace LintMend

/-- What the server works with. -/
structure Workbench where
  world : World
  manager : Manager
  rules : List Repair.Rule
  cycles : Nat

inductive Phase where
  | uninitialized
  | initialized
  | shutDown
  | exited
deriving DecidableEq, Repr

structure Server where
  phase : Phase
  session : EditorSession
deriving DecidableEq, Repr

namespace Server

def start : Server := ⟨.uninitialized, .empty⟩

/-! ## Parameters -/

def uriIn? (params : Json) : Option Uri :=
  (((params.get? "textDocument").bind (·.get? "uri")).bind Json.str?).bind (Uri.parse? ·.toList)

def textOf? (json : Json) : Option Text :=
  ((json.get? "text").bind Json.str?).map String.toList

def positionIn? (params : Json) : Option Position := do
  let position ← params.get? "position"
  return ⟨← (position.get? "line").bind Json.word?, ← (position.get? "character").bind Json.word?⟩

/-- What parameters say about a document. The last change of a text holds all of it. -/
def notice? (reaction : Reaction) (params : Json) : Option Notice := do
  let uri ← uriIn? params
  match reaction with
  | .opened => return .opened uri (← (params.get? "textDocument").bind textOf?)
  | .changed =>
    let changes ← (params.get? "contentChanges").bind Json.arr?
    return .changed uri (← changes.getLast?.bind textOf?)
  | .saved => return .saved uri (textOf? params)
  | .closed => return .closed uri
  | _ => none

/-! ## Documents -/

/-- A lint of a document and what came of it. -/
structure FinishedLint where
  lint : DocumentLint
  result : Except RepairError LintRun

namespace FinishedLint

def of (bench : Workbench) (lint : DocumentLint) : FinishedLint :=
  ⟨lint, bench.manager.lintTextFor bench.world lint.path lint.text⟩

/-- A lint that fails has found nothing. -/
def report (f : FinishedLint) : LintReport AdapterError :=
  match f.result with
  | .ok run => run.report
  | .error _ => ⟨[], []⟩

def hints (f : FinishedLint) : List Hint := f.report.hints

def errorNotice (e : RepairError) : Sent := .log .error s!"{programName}: {joinChain e.chain}"

def failureNotice (f : Failure AdapterError) : Sent :=
  .log .warning s!"{programName}: {f.adapter} produced no hints: {f.error.message}"

def sent (f : FinishedLint) : List Sent :=
  let errors := match f.result with
    | .ok _ => []
    | .error e => [errorNotice e]
  errors ++ f.report.failures.map failureNotice
    ++ [.diagnostics f.lint.uri (Diagnostic.ofHints f.lint.text f.hints)]

def log (f : FinishedLint) : Log :=
  match f.result with
  | .ok run => run.log
  | .error e => [Log.entry "lsp" s!"lint failed for {f.lint.uri.render}: {joinChain e.chain}"]

end FinishedLint

/-- Completes all lints that are underway, in the order in which they were begun. -/
def finish (bench : Workbench) (session : EditorSession) : EditorSession × List FinishedLint :=
  let finished := session.underway.map (FinishedLint.of bench)
  (finished.foldl (fun session f ↦ session.complete f.lint f.hints) session, finished)

/-- Takes a notice and completes the lints that are underway then. -/
def take (bench : Workbench) (session : EditorSession) (notice : Notice) :
    EditorSession × Reply :=
  let cleared := match notice with
    | .closed uri => [Sent.diagnostics uri []]
    | _ => []
  let (session, finished) := finish bench (session.receive notice)
  (session, ⟨none, cleared ++ finished.flatMap (·.sent), finished.flatMap (·.log)⟩)

/-! ## Results of requests -/

def capabilities : Json :=
  .obj [("codeActionProvider", .bool true), ("hoverProvider", .bool true),
    ("textDocumentSync",
      .obj [("change", .nat 1), ("openClose", .bool true),
        ("save", .obj [("includeText", .bool true)])])]

def handshakeResult : Json :=
  .obj [("capabilities", capabilities),
    ("serverInfo", .obj [("name", .str programName), ("version", .str programVersion)])]

/-- The messages of the hints at a position. -/
def hoverResult (session : EditorSession) (params : Json) : Json :=
  let tooltip? : Option String := do
    let document ← session.get? (← uriIn? params)
    let position ← positionIn? params
    Overlay.tooltipAt document.hints position.line position.column
  match tooltip? with
  | some tooltip => .obj [("contents", .str tooltip)]
  | none => .null

def repairTitle : String := "Try to repair the file"

/-- The repair of a document that can be repaired, with the path it is linted as. -/
def attempt? (bench : Workbench) (session : EditorSession) (params : Json) :
    Option (String × Document × Repair.Attempt RepairError) := do
  let (path, document) ← session.repairable? (← uriIn? params)
  let attempt := bench.manager.attemptText bench.world bench.rules path bench.cycles document.text
    ⟨document.hints, []⟩
  return (path, document, attempt)

/-- An action that replaces all of a document. -/
def repairAction (uri : Uri) (document : Document) (text : Text) (diagnostics : Json) : Json :=
  let edit := Json.obj [("newText", .str (String.ofList text)),
    ("range", Diagnostic.rangeJson ⟨0, 0⟩ document.text.endPosition16)]
  .obj [("diagnostics", diagnostics),
    ("edit", .obj [("changes", .obj [(uri.render, .arr [edit])])]),
    ("isPreferred", .bool true), ("kind", .str "quickfix"), ("title", .str repairTitle)]

/-- An action is offered if the repair succeeds and changes the text. -/
def codeActions (bench : Workbench) (session : EditorSession) (params : Json) : Reply :=
  match uriIn? params, attempt? bench session params with
  | some uri, some (path, document, attempt) =>
    let log := attempt.made.log path
    match attempt.result with
    | .ok repaired =>
      let diagnostics := ((params.get? "context").bind (·.get? "diagnostics")).getD (.arr [])
      let actions := if repaired.isChanged then
          .arr [repairAction uri document repaired.result diagnostics]
        else .null
      .result actions log
    | .error e =>
      let failed := Log.entry "lsp" s!"repair failed for {uri.render}: {joinChain e.chain}"
      .result .null (log ++ [failed])
  | _, _ => .result .null []

/-! ## Messages -/

/-- The refusal of requests that come before the handshake or after the shutdown. -/
def refusalIn : Phase → Refusal
  | .uninitialized => .notInitialized
  | _ => .invalidRequest

def readyNotice (bench : Workbench) : Sent :=
  let names := ", ".intercalate bench.manager.roster.running
  .log .information s!"{programName} LSP server initialized ({names})"

/-- What comes of a message whose parameters fit and whose time has come. -/
def react (bench : Workbench) (server : Server) (reaction : Reaction) (params : Json) :
    Server × Reply :=
  match reaction with
  | .handshake => ({ server with phase := .initialized }, .result handshakeResult [])
  | .shutdown => ({ server with phase := .shutDown }, .result .null [])
  | .hover => (server, .result (hoverResult server.session params) [])
  | .codeAction => (server, codeActions bench server.session params)
  | .unoffered => (server, .refused .notOffered)
  | .initialized => (server, ⟨none, [readyNotice bench], []⟩)
  | .cancelled | .ignored => (server, .silent)
  | .exit => ({ server with phase := .exited }, .silent)
  | .opened | .changed | .saved | .closed =>
    match notice? reaction params with
    | some notice =>
      let (session, reply) := take bench server.session notice
      ({ server with session }, reply)
    | none => (server, .silent)

/-- Whether a method has its time in a phase: the handshake first, and all else after it, except
that a request can be cancelled at any time. -/
def isTimely (phase : Phase) : Reaction → Bool
  | .handshake => phase = .uninitialized
  | .cancelled => true
  | _ => phase = .initialized

/-- The refusal of a request at the wrong time. -/
def untimely (phase : Phase) (reaction : Reaction) : Refusal :=
  if reaction = .handshake then .invalidRequest else refusalIn phase

/-- A shutdown takes place whatever its parameters are. -/
def closesAnyway (server : Server) (reaction : Reaction) : Server :=
  if reaction = .shutdown then { server with phase := .shutDown } else server

/-- What comes of a message with a known method. -/
def handleKnown (bench : Workbench) (server : Server) (method : Method) (message : Message) :
    Server × Reply :=
  let reaction := method.reaction
  if ¬ isTimely server.phase reaction then
    (server, if message.id.isSome then .refused (untimely server.phase reaction) else .silent)
  else if reaction.isRequest ≠ message.id.isSome then (closesAnyway server reaction, .silent)
  else
    match method.readParams? message.params with
    | some params => react bench server reaction params
    | none =>
      (closesAnyway server reaction,
        if reaction.isRequest then .refused (.invalidParams method.name) else .silent)

/-- Methods with this beginning can be ignored by those who do not know them. -/
def isOptional (method : String) : Bool := "$/".toList.isPrefixOf method.toList

/-- The server after a message, and what comes of it; none after the exit. -/
def handle? (bench : Workbench) (server : Server) (message : Message) : Option (Server × Reply) :=
  if server.phase = .exited then none
  else
    match Method.named? message.method with
    | none =>
      let refused := message.id.isSome ∧ ¬ isOptional message.method
      some (server, if refused then .refused (.unknownMethod message.method) else .silent)
    | some method =>
      if method.reaction = .exit then some ({ server with phase := .exited }, .silent)
      else some (handleKnown bench server method message)

end Server

end LintMend
