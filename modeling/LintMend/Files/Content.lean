import LintMend.Text.Utf8

/-!
# Content of files

A file holds bytes. Where they are the encoding of a text the content is held as that text.
-/

namespace LintMend

inductive Content where
  | text (text : Text)
  /-- Bytes that are not the encoding of a text. -/
  | binary (bytes : List UInt8)
deriving DecidableEq, Repr

namespace Content

def ofBytes (bytes : List UInt8) : Content :=
  match Text.decode? bytes with
  | some t => text t
  | none => binary bytes

def bytes : Content → List UInt8
  | text t => t.encode
  | binary b => b

def text? : Content → Option Text
  | text t => some t
  | binary _ => none

/-- The text with a replacement character for what is no character. -/
def lossy : Content → Text
  | text t => t
  | binary b => Text.decodeLossy b

/-- Adds a text at the end. What is not the encoding of a text does not become one. -/
def append : Content → Text → Content
  | text t, added => text (t ++ added)
  | binary b, added => binary (b ++ added.encode)

end Content

end LintMend
