import KernelCore.GateDescriptor
import KernelCore.SegmentSelector
import KernelCore.TrapVector

/-!
# The interrupt vector table

One gate for each of the 256 vectors. `populate` installs the entry stubs of exceptions, device
lines, system calls and spurious interrupts and leaves every other vector without a handler.
-/
namespace KernelCore

/-- Addresses of the entry stubs. -/
structure EntryStubs where
  exceptions : Nat → UInt64
  lines : Nat → UInt64
  syscall : UInt64
  spurious : UInt64

/-- The gate of every vector. -/
structure VectorTable where
  gate : UInt8 → GateDescriptor

namespace VectorTable

def empty : VectorTable := ⟨fun _ => .missing⟩

def set (t : VectorTable) (vector : UInt8) (g : GateDescriptor) : VectorTable :=
  ⟨fun v => if v = vector then g else t.gate v⟩

/-- Replaces `count` gates from vector `first` on. -/
def setRange (t : VectorTable) (first count : Nat) (gates : Nat → GateDescriptor) : VectorTable :=
  ⟨fun v => if first ≤ v.toNat ∧ v.toNat - first < count then gates (v.toNat - first)
    else t.gate v⟩

/-- A gate into the kernel that only the kernel's own level may call. -/
def kernelGate (handler : UInt64) : GateDescriptor :=
  .new handler SegmentSelector.kernelCode 0 .interrupt

/-- The stack index of the double fault, which must not rely on the interrupted stack. -/
def doubleFaultStack : UInt16 := 0

/-- The table with all stubs installed and nothing else. System calls are the one gate that ring 3
may call. -/
def populate (_ : VectorTable) (stubs : EntryStubs) : VectorTable :=
  empty
    |>.setRange 0 exceptionCount (fun n => kernelGate (stubs.exceptions n))
    |>.set (UInt8.ofNat doubleFaultVector)
      ((kernelGate (stubs.exceptions doubleFaultVector)).withStackIndex doubleFaultStack)
    |>.setRange firstLineVector lineCount (fun n => kernelGate (stubs.lines n))
    |>.set (UInt8.ofNat syscallVector)
      (.new stubs.syscall SegmentSelector.kernelCode 3 .interrupt)
    |>.set (UInt8.ofNat spuriousVector) (kernelGate stubs.spurious)

/-- The vectors whose gate is present, in order. -/
def presentVectors (t : VectorTable) : List Nat :=
  (List.range vectorCount).filter fun v => (t.gate (UInt8.ofNat v)).present

/-- Offset of the last byte of the table, which the processor takes as its length. -/
def limit : Nat := 16 * vectorCount - 1

end VectorTable
end KernelCore
