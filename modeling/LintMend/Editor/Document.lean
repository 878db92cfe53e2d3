import LintMend.Editor.Uri
import LintMend.Hint.Basic

/-!
# Documents of an editor

A session knows the documents that an editor has open: the text the editor sent last, and the hints
of the last lint with the text they were found in. Lints take their time, so a lint that is begun
is kept as underway until it is completed, and other notices may arrive between.
-/

namespace LintMend

structure Document where
  text : Text
  /-- The text the hints were found in. -/
  lintedText : Text
  hints : List Hint
deriving DecidableEq, Repr

namespace Document

def ofLint (text : Text) (hints : List Hint) : Document := ⟨text, text, hints⟩

/-- A document that no lint knows yet. -/
def unlinted (text : Text) : Document := ⟨text, [], []⟩

/-- Hints can be repaired only in the text they were found in. -/
def isRepairable (d : Document) : Bool := !d.hints.isEmpty && d.text = d.lintedText

end Document

/-- A lint of the text of a document. -/
structure DocumentLint where
  uri : Uri
  path : String
  text : Text
deriving DecidableEq, Repr

/-- What an editor says about a document. -/
inductive Notice where
  | opened (uri : Uri) (text : Text)
  | changed (uri : Uri) (text : Text)
  /-- The text may come with the notice. -/
  | saved (uri : Uri) (text : Option Text)
  | closed (uri : Uri)
deriving DecidableEq, Repr

structure EditorSession where
  documents : List (Uri × Document)
  underway : List DocumentLint
deriving DecidableEq, Repr

namespace EditorSession

def empty : EditorSession := ⟨[], []⟩

def get? (s : EditorSession) (uri : Uri) : Option Document :=
  (s.documents.find? (·.1 = uri)).map (·.2)

def put (s : EditorSession) (uri : Uri) (d : Document) : EditorSession :=
  { s with documents := (uri, d) :: s.documents.filter (·.1 ≠ uri) }

def remove (s : EditorSession) (uri : Uri) : EditorSession :=
  { s with documents := s.documents.filter (·.1 ≠ uri) }

/-- Begins a lint, if the document is one that is linted. -/
def beginLint (s : EditorSession) (uri : Uri) (text : Text) : EditorSession :=
  match uri.lintPath? with
  | some path => { s with underway := s.underway ++ [⟨uri, path, text⟩] }
  | none => s

def receive (s : EditorSession) : Notice → EditorSession
  | .opened uri text => s.beginLint uri text
  | .changed uri text =>
    s.put uri ((s.get? uri).elim (Document.unlinted text) fun d ↦ { d with text })
  | .saved uri text =>
    match text.or ((s.get? uri).map (·.text)) with
    | some text => s.beginLint uri text
    | none => s
  | .closed uri => s.remove uri

/-- The document that a repair can be offered for, with the path it is linted as. -/
def repairable? (s : EditorSession) (uri : Uri) : Option (String × Document) :=
  match uri.lintPath?, (s.get? uri).filter (·.isRepairable) with
  | some path, some d => some (path, d)
  | _, _ => none

/-- Completes a lint that is underway with the hints it found. -/
def complete (s : EditorSession) (lint : DocumentLint) (hints : List Hint) : EditorSession :=
  { s.put lint.uri (Document.ofLint lint.text hints) with underway := s.underway.erase lint }

/-! ## Any order -/

/-- What can happen next in a session. -/
inductive Event where
  | notice (notice : Notice)
  | completed (lint : DocumentLint) (hints : List Hint)
deriving DecidableEq, Repr

/-- Only a lint that is underway can be completed. -/
def after (s : EditorSession) : Event → EditorSession
  | .notice n => s.receive n
  | .completed lint hints => if lint ∈ s.underway then s.complete lint hints else s

/-- The document whose hints an event publishes, with these hints. -/
def published? (s : EditorSession) : Event → Option (Uri × List Hint)
  | .notice (.closed uri) => some (uri, [])
  | .notice _ => none
  | .completed lint hints => if lint ∈ s.underway then some (lint.uri, hints) else none

def afterAll (s : EditorSession) (events : List Event) : EditorSession := events.foldl after s

end EditorSession

end LintMend
