import LintMend.Cli.Run

/-!
# The program

Reads the files below the working directory into a tree, runs the command on it, and brings the
files that changed back to disk. No programs can be launched from here, so every linter counts as
not installed; the commands on settings, rulesets and rules do not need one.
-/

namespace LintMend.Program

/-- Directories below this depth are not read. -/
def maxDepth : Nat := 24

/-- The files and directories below a directory, with their places. -/
def entriesBelow (fuel : Nat) (place : Place) (path : String) :
    IO (List (Place × FileTree.Entry)) := do
  match fuel with
  | 0 => return []
  | fuel + 1 =>
    let mut entries := []
    for item in ← (← IO.FS.realPath path).readDir do
      let name := item.fileName
      let here := place ++ [name]
      let below := path ++ "/" ++ name
      if ← item.path.isDir then
        entries := entries ++ (here, .directory) :: (← entriesBelow fuel here below)
      else
        try
          let bytes ← IO.FS.readBinFile below
          entries := entries ++ [(here, .file (Content.ofBytes bytes.toList))]
        catch _ => pure ()
    return entries

def treeAt (base : String) : IO FileTree := do
  return ⟨base, ← entriesBelow maxDepth [] base⟩

/-- Brings the files of a tree that differ from those of another to disk. -/
def store (before after : FileTree) : IO Unit := do
  for (place, entry) in after.entries do
    let path := "/".intercalate (after.base :: place)
    if before.entry? place ≠ some entry then
      match entry with
      | .directory => IO.FS.createDirAll path
      | .file content => IO.FS.writeBinFile path ⟨content.bytes.toArray⟩
  for (place, entry) in before.entries do
    match entry, after.entry? place with
    | .file _, none => IO.FS.removeFile ("/".intercalate (before.base :: place))
    | _, _ => pure ()

/-- Whether output is colored, given what the environment says and whether a terminal shows it. -/
def wantsColors (force plain clicolor : Option String) (terminal : Bool) : Bool :=
  if force.any (· ≠ "0") then true
  else if plain.isSome then false
  else terminal && clicolor ≠ some "0"

end LintMend.Program

open LintMend in
def main (arguments : List String) : IO UInt32 := do
  let base := toString (← IO.currentDir)
  let files ← Program.treeAt base
  let terminal ← (← IO.getStdout).isTty
  let colors := Program.wantsColors (← IO.getEnv "CLICOLOR_FORCE") (← IO.getEnv "NO_COLOR")
    (← IO.getEnv "CLICOLOR") terminal
  let stdin ← if arguments.contains "--stdin" || arguments.contains "lsp" then
      (← IO.getStdin).readBinToEnd
    else pure ByteArray.empty
  let stamp := toString (← IO.monoMsNow) ++ " ms"
  let world : World :=
    { files, isProgram := fun _ ↦ false, launch := fun _ _ _ ↦ .error .notFound
      scratch := "/tmp/phphints", copyFault := fun _ _ ↦ none, xmlFault := fun _ _ ↦ "" }
  let outcome := Cli.run
    { world, home := (← IO.getEnv "HOME").getD base, stdin := Content.ofBytes stdin.toList
      colors, stamp } arguments
  IO.print outcome.printed.out
  IO.eprint outcome.printed.err
  Program.store files outcome.files
  return outcome.status.toUInt32
