import LintMend.Hint.Basic

/-!
# Adapters

The three linters whose findings become hints, with what is the same for all hints of one.
-/

namespace LintMend

inductive Adapter where
  /-- Syntax errors. -/
  | phplint
  /-- Mess detection. -/
  | phpmd
  /-- Coding standards. -/
  | phpcs
deriving DecidableEq, Repr, Inhabited

namespace Adapter

/-- All adapters, in the order in which they run. -/
def all : List Adapter := [phplint, phpmd, phpcs]

def name : Adapter → String
  | phplint => "phplint"
  | phpmd => "phpmd"
  | phpcs => "phpcs"

def named? (name : String) : Option Adapter := all.find? (·.name == name)

def description : Adapter → String
  | phplint => "Syntax errors reported by PHP-Parser"
  | phpmd => "Mess detection by PHPMD, per registered ruleset"
  | phpcs => "Coding standard violations by PHP_CodeSniffer, per registered standard"

/-- The color of the marks of an adapter's hints. -/
def color : Adapter → Color
  | phplint => ⟨0xFF, 0x00, 0x00⟩
  | phpmd => ⟨0x8F, 0x78, 0x11⟩
  | phpcs => ⟨0xA5, 0xA5, 0xA5⟩

def priority : Adapter → Int
  | phplint => 300
  | phpmd => 200
  | phpcs => 100

/-- A hint of an adapter. -/
def hint (adapter : Adapter) (lineBegin lineEnd columnBegin columnEnd : Nat) (message : Text) :
    Hint :=
  { lineBegin, lineEnd, columnBegin, columnEnd
    message := String.ofList message
    color := adapter.color
    priority := adapter.priority
    source := adapter.name }

end Adapter

end LintMend
