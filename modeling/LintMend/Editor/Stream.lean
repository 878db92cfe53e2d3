import LintMend.Editor.Frame
import LintMend.Editor.Server

/-!
# A conversation on a stream

All that a server says when an editor sends it some bytes: for each message first the notices, then
the answer. What is no message is passed over.
-/

namespace LintMend.Server

/-- What a server said, and the entries of the debug log. -/
structure Said where
  frames : List Json
  log : Log

namespace Said

def nothing : Said := ⟨[], []⟩

def append (a b : Said) : Said := ⟨a.frames ++ b.frames, a.log ++ b.log⟩

def ofReply (id : Json) (reply : Reply) : Said :=
  ⟨reply.sent.map Sent.toJson ++ (reply.answer.map (Answer.toJson id)).toList, reply.log⟩

def unreadable : Said := ⟨[Answer.toJson .null (.error .unreadable)], []⟩

def render (said : Said) : Text := said.frames.flatMap fun json ↦ Frame.ofText json.compress.toList

end Said

/-- Talks to an editor until it exits or has nothing more to say. -/
def converse (bench : Workbench) : Server → List (Option Json) → Said
  | _, [] => .nothing
  | server, none :: rest => Said.unreadable.append (converse bench server rest)
  | server, some json :: rest =>
    match Message.ofJson? json with
    | none => converse bench server rest
    | some message =>
      match server.handle? bench message with
      | none => .nothing
      | some (server, reply) =>
        (Said.ofReply (message.id.getD .null) reply).append (converse bench server rest)

end LintMend.Server
