import LintMend.Files.Tree
import LintMend.Lint.Adapter
import LintMend.Lint.WaitStatus

/-!
# What a run can see

The files a run works on and the programs it can launch, as a value. A program is a function of its
arguments and of the file it scans. What is scanned is a temporary copy outside of these files, and
all that shows of it is whether it can be made.
-/

namespace LintMend

/-- What a finished program wrote, and how it ended. -/
structure ToolOutput where
  stdout : Content
  stderr : Content
  status : WaitStatus
deriving DecidableEq, Repr

structure World where
  files : FileTree
  /-- Whether a name is that of a program. -/
  isProgram : String → Bool
  /-- Runs a program with some arguments on a scanned file. -/
  launch : String → List String → Content → Except FileError ToolOutput
  /-- Path of the temporary copy that is scanned, without its extension. -/
  scratch : String
  /-- What keeps a content from being copied to a path, if anything does. -/
  copyFault : String → Content → Option FileError
  /-- What the reader of XML says of an output of an adapter's tool that it cannot read. -/
  xmlFault : Adapter → Text → String

/-- Where the linters are found. -/
structure ToolPaths where
  php : String
  /-- Script that the interpreter runs to check the syntax; without it a program of its own does. -/
  phpParser : Option String
  phpmd : String
  phpcs : String
deriving DecidableEq, Repr

def ToolPaths.standard : ToolPaths := ⟨"php", none, "phpmd", "phpcs"⟩

end LintMend
