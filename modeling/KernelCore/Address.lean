import KernelCore.Hexadecimal

/-!
# Addresses, pages and frames

Addresses are natural numbers; `UInt64` is for what a 64-bit register or a page-table entry holds.
Numbers agree with words as long as no computation wraps, and what comes from outside is kept so
small that none does: the range of a caller and a segment of an image must end below `wordLimit`,
and memory for frames ends about where the physical addresses do. Virtual memory is cut into pages
and physical memory into frames of one size. A virtual address is canonical if its upper seventeen
bits agree, so the canonical addresses form two halves with a gap between them.
-/
namespace KernelCore

def pageSize : Nat := 4096

/-- First address past the lower half of the canonical addresses, the half of user programs. -/
def userSpaceEnd : Nat := 0x800000000000

/-- One more than the largest word, which has sixty-four bits. -/
def wordLimit : Nat := 0x10000000000000000

/-- The first number that is no physical address, which has fifty-two bits. -/
def physicalLimit : Nat := 0x10000000000000

/-- The upper seventeen of the sixty-four bits agree. -/
def Canonical (a : Nat) : Prop :=
  a < userSpaceEnd ∨ (wordLimit - userSpaceEnd ≤ a ∧ a < wordLimit)

instance (a : Nat) : Decidable (Canonical a) := by
  unfold Canonical; infer_instance

/-- A virtual page, named by its number. -/
structure Page where
  number : Nat
  deriving DecidableEq, Repr

/-- A physical frame, named by its number. -/
structure Frame where
  number : Nat
  deriving DecidableEq, Repr, Inhabited

namespace Page

def containing (a : Nat) : Page := ⟨a / pageSize⟩

def start (p : Page) : Nat := p.number * pageSize

@[simp] theorem containing_start (p : Page) : containing p.start = p := by
  simp [containing, start, pageSize]

end Page

namespace Frame

def containing (a : Nat) : Frame := ⟨a / pageSize⟩

def start (f : Frame) : Nat := f.number * pageSize

@[simp] theorem containing_start (f : Frame) : containing f.start = f := by
  simp [containing, start, pageSize]

end Frame

/-- `count` consecutive pages from number `first` on. -/
def pagesFrom (first count : Nat) : List Page := (List.range' first count).map Page.mk

/-- Number of the pages that the `length` bytes from `a` on lie in. -/
def pageCount (a length : Nat) : Nat :=
  if length = 0 then 0 else (a + (length - 1)) / pageSize - a / pageSize + 1

/-- The pages that the `length` bytes from `a` on lie in. -/
def pagesTouched (a length : Nat) : List Page := pagesFrom (a / pageSize) (pageCount a length)

/-- Number of the last page of the lower half. The page after it is not canonical. -/
def lastLowerPage : Nat := 0x7ffffffff

/-- What a walk over consecutive pages ends with. -/
inductive PageScan where
  | clear
  | occupied
  | aborted
  deriving DecidableEq, Repr

/-- Walks over `count` pages from number `first` on, up to the first one that `taken` accepts.
The walk steps to the next page before it looks at the one it is on, and the step past the last
page of the lower half leaves the canonical addresses: there the walk aborts. -/
def scanPages (taken : Page → Bool) : (count first : Nat) → PageScan
  | 0, _ => .clear
  | n + 1, first =>
    if first = lastLowerPage then .aborted
    else if taken ⟨first⟩ then .occupied
    else scanPages taken n (first + 1)

/-- How an operation ends that walks over pages: with an answer, with an error, or with the kernel
itself stopped by a step that leaves the canonical addresses. -/
inductive Outcome (ε α : Type) where
  | ok (answer : α)
  | error (cause : ε)
  | aborted
  deriving DecidableEq, Repr

end KernelCore
