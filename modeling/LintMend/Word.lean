/-!
# Words

Whole numbers of a fixed width, as their ranges among all whole numbers.
-/

namespace LintMend

/-- Number of words of 32 bits. -/
def words32 : Nat := 0x100000000

/-- Number of words of 64 bits. -/
def words64 : Nat := 0x10000000000000000

/-- Counting with words of 32 bits: the word after the last is zero. -/
def wrap32 (n : Nat) : Nat := n % words32

/-- The word of 64 bits behind another; the last one has none. -/
def next64? (n : Nat) : Option Nat := if n + 1 < words64 then some (n + 1) else none

/-- Whether a number is one of 32 bits without a sign. -/
def isWord32 (n : Int) : Bool := 0 ≤ n && n < words32

/-- Whether a number is one of 64 bits without a sign. -/
def isWord64 (n : Int) : Bool := 0 ≤ n && n < words64

/-- Whether a number is one of 32 bits with a sign. -/
def isSigned32 (n : Int) : Bool := -words32 ≤ 2 * n && 2 * n < words32

/-- Whether a number is one of 64 bits with a sign. -/
def isSigned64 (n : Int) : Bool := -words64 ≤ 2 * n && 2 * n < words64

end LintMend
