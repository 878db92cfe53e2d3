/-!
# Wait statuses

The word in which a system reports how a process ended: its exit code, or the signal that ended,
stopped or continued it.
-/

namespace LintMend

structure WaitStatus where
  word : UInt32
deriving DecidableEq, Repr

namespace WaitStatus

def ofExitCode (code : UInt8) : WaitStatus := ⟨code.toUInt32 <<< 8⟩

/-- The signals in the order of their numbers, from one on. -/
def signals : List String :=
  ["SIGHUP", "SIGINT", "SIGQUIT", "SIGILL", "SIGTRAP", "SIGABRT", "SIGBUS", "SIGFPE", "SIGKILL",
   "SIGUSR1", "SIGSEGV", "SIGUSR2", "SIGPIPE", "SIGALRM", "SIGTERM", "SIGSTKFLT", "SIGCHLD",
   "SIGCONT", "SIGSTOP", "SIGTSTP", "SIGTTIN", "SIGTTOU", "SIGURG", "SIGXCPU", "SIGXFSZ",
   "SIGVTALRM", "SIGPROF", "SIGWINCH", "SIGIO", "SIGPWR", "SIGSYS"]

/-- A signal by its number, and by its name if it has one. -/
def signalText (number : Nat) : String :=
  match number with
  | 0 => "0"
  | n + 1 =>
    match signals[n]? with
    | some name => s!"{n + 1} ({name})"
    | none => s!"{n + 1}"

def hex (n : Nat) : String := "0x" ++ String.ofList (Nat.toDigits 16 n)

def describe (status : WaitStatus) : String :=
  let word := status.word.toNat
  let low := word % 0x80
  let high := word / 0x100 % 0x100
  if low = 0 then s!"exit status: {high}"
  else if low ≠ 0x7F then
    let core := if word / 0x80 % 2 = 1 then " (core dumped)" else ""
    "signal: " ++ signalText low ++ core
  else if word % 0x100 = 0x7F then
    "stopped (not terminated) by signal: " ++ signalText high
  else if word = 0xFFFF then "continued (WIFCONTINUED)"
  else s!"unrecognised wait status: {status.word.toInt32} {hex word}"

end WaitStatus

end LintMend
