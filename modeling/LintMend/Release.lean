/-!
# The program

How the program calls itself, on the command line and to editors.
-/

namespace LintMend

def programName : String := "phphints"

def programVersion : String := "0.1.0"

end LintMend
