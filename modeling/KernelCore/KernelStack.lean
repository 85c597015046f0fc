import KernelCore.Address
import KernelCore.Trapframe

/-!
# Kernel stacks

Every process but the kernel's own has a stack inside the kernel. A process of ring 0 runs on it; a
process of ring 3 uses it only while the kernel handles its traps. The highest bytes take the frame
that the process starts from.
-/
namespace KernelCore

structure KernelStack where
  base : Nat
  size : Nat
  deriving DecidableEq, Repr

namespace KernelStack

def defaultSize : Nat := 8192

/-- Size of the heap that the stacks are taken from. -/
def heapSize : Nat := 4 * 1024 * 1024

/-- The most memory that one stack can take. -/
def largestSize : Nat := 1024 * 1024 * 1024

/-- Where the stacks of the processes lie if the machine has no other place for them. -/
def defaultRegion : Nat := 0xffffa1c000000000

/-- Each stack of a region lies in a stride of its own with a gap above it. -/
def stride : Nat := 2 * defaultSize

/-- Lowest address of the stack of the process with this number. -/
def baseFor (region pid : Nat) : Nat := region + pid * stride

/-- A stack at `base`, unless its size leaves no room for a trap frame or is too large. -/
def allocate? (base : Nat) (size : Nat) : Option KernelStack :=
  if size < Trapframe.size ∨ largestSize < size then none else some ⟨base, size⟩

def top (s : KernelStack) : Nat := s.base + s.size

/-- The address of the frame that the process starts from. -/
def frameSlot (s : KernelStack) : Nat := s.top - Trapframe.size

def contains (s : KernelStack) (a : Nat) : Bool := s.base ≤ a && a ≤ s.top

def forProcess (region pid : Nat) : KernelStack := ⟨baseFor region pid, defaultSize⟩

theorem allocate?_baseFor (region pid : Nat) :
    allocate? (baseFor region pid) defaultSize = some (forProcess region pid) := rfl

theorem size_of_allocate? {base size : Nat} {s : KernelStack} (h : allocate? base size = some s) :
    Trapframe.size ≤ s.size := by
  unfold allocate? at h
  split at h
  · cases h
  · cases h; simp only; omega

/-- Stacks of different processes do not overlap. -/
theorem top_lt_base (region : Nat) {p q : Nat} (h : p < q) :
    (forProcess region p).top < (forProcess region q).base := by
  change region + p * 16384 + 8192 < region + q * 16384
  omega

end KernelStack
end KernelCore
