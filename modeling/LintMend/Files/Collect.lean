import LintMend.Settings.Project

/-!
# Files to work on

Paths given by name are files, directories, or nothing. The files to work on are those named, and
those of the language below the named directories, except for the excluded ones, in the order of
paths and each once.
-/

namespace LintMend

structure Collected where
  files : List String
  /-- The paths that lead to nothing. -/
  missing : List String
deriving DecidableEq, Repr

namespace Collected

/-- The candidates that a path stands for. -/
def candidates (files : FileTree) (path : String) : List String :=
  if files.isFile path then [path]
  else (files.filesBelow path).filter fun file ↦ Path.extension? file == some "php"

/-- Drops every path that is equal to the one before it. -/
def dedup : List String → List String
  | a :: b :: rest =>
    match dedup (b :: rest) with
    | kept => if Path.components a = Path.components b then a :: kept.drop 1 else a :: kept
  | rest => rest

def isMissing (files : FileTree) (path : String) : Bool :=
  !(files.isFile path || files.isDirectory path)

def ofPaths (files : FileTree) (settings : ProjectSettings) (paths : List String) : Collected where
  files := dedup (((paths.flatMap (candidates files)).filter
    fun file ↦ !settings.isExcluded file).mergeSort Path.le)
  missing := paths.filter (isMissing files)

end Collected

end LintMend
