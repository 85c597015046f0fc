/-!
# Notices

What the kernel reports about its own work: a level and a text. A `Journal` is any state that takes
notices; `Notice.line` is a notice as the serial console shows it, in the colour of its level.
-/
namespace KernelCore

/-- Levels of a notice, the gravest first. -/
inductive Level where
  | error | warn | info | debug | trace
  deriving DecidableEq, Repr

namespace Level

def all : List Level := [.error, .warn, .info, .debug, .trace]

def rank : Level → Nat
  | .error => 1 | .warn => 2 | .info => 3 | .debug => 4 | .trace => 5

def label : Level → String
  | .error => "ERROR" | .warn => "WARN" | .info => "INFO" | .debug => "DEBUG" | .trace => "TRACE"

def labelColour : Level → Nat
  | .error => 31 | .warn => 33 | .info => 32 | .debug => 90 | .trace => 90

/-- Terminal colour of the text, which is that of the label except for plain information. -/
def textColour : Level → Nat
  | .info => 37
  | level => level.labelColour

/-- Notices of this level are shown when `threshold` is the least grave level shown; `none` shows
nothing. -/
def shownAt (level : Level) (threshold : Option Level) : Bool :=
  threshold.any fun t => level.rank ≤ t.rank

end Level

structure Notice where
  level : Level
  text : String
  deriving DecidableEq, Repr

namespace Notice

def error (text : String) : Notice := ⟨.error, text⟩
def warn (text : String) : Notice := ⟨.warn, text⟩
def info (text : String) : Notice := ⟨.info, text⟩
def debug (text : String) : Notice := ⟨.debug, text⟩
def trace (text : String) : Notice := ⟨.trace, text⟩

private def colour (code : Nat) : String := "\x1b[" ++ toString code ++ "m"

/-- The line of the serial console, with its line end. -/
def line (n : Notice) : String :=
  "[" ++ colour n.level.labelColour ++ n.level.label ++ colour 0 ++ "] " ++
    colour n.level.textColour ++ n.text ++ colour 0 ++ "\n"

end Notice

/-- A state that takes notices. -/
class Journal (σ : Type) where
  note : Notice → σ → σ

/-- The plainest journal: the notices in the order in which they came. -/
instance : Journal (List Notice) where
  note n ns := ns ++ [n]

end KernelCore
