/-!
# Trap vectors

Which vector means what: processor exceptions first, then the sixteen device lines, the gate of
system calls and the vector of spurious interrupts. `TrapKind.classify` is the rule by which a trap
is routed.
-/
namespace KernelCore

def vectorCount : Nat := 256

/-- Vectors below this one are processor exceptions. -/
def exceptionCount : Nat := 32

def lineCount : Nat := 16

/-- Vector of device line 0; the other lines follow. -/
def firstLineVector : Nat := 32

def doubleFaultVector : Nat := 8
def pageFaultVector : Nat := 14
def syscallVector : Nat := 0x80
def spuriousVector : Nat := 0xff

def timerLine : Nat := 0

/-- The vector on which a device line is delivered. -/
def vectorForLine (line : Nat) : Nat := firstLineVector + line

/-- What a trap is, by its vector. -/
inductive TrapKind where
  | exception (vector : Nat)
  | line (line : Nat)
  | syscall
  | unexpected (vector : Nat)
  deriving DecidableEq, Repr

def TrapKind.classify (vector : Nat) : TrapKind :=
  if vector < exceptionCount then .exception vector
  else if firstLineVector ≤ vector ∧ vector < firstLineVector + lineCount then
    .line (vector - firstLineVector)
  else if vector = syscallVector then .syscall
  else .unexpected vector

theorem TrapKind.classify_vectorForLine {line : Nat} (h : line < lineCount) :
    classify (vectorForLine line) = .line line := by
  have h₁ : ¬ vectorForLine line < exceptionCount := by
    simp [vectorForLine, exceptionCount, firstLineVector]
  have h₂ : firstLineVector ≤ vectorForLine line ∧
      vectorForLine line < firstLineVector + lineCount := by
    unfold vectorForLine; omega
  rw [classify, if_neg h₁, if_pos h₂, vectorForLine, Nat.add_sub_cancel_left]

end KernelCore
