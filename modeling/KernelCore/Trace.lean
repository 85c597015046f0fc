import KernelCore.Platform

/-!
# Traces

A machine that is watched: `Traced π` behaves as the machine inside it and keeps a list of what it
was asked, the first call first. Questions that change nothing are not kept.
-/
namespace KernelCore

/-- What was asked of a machine, with those answers that the machine was free to choose. -/
inductive Call where
  | allocateFrame (frame : Option Frame)
  | releaseFrame (frame : Frame)
  | activate (space : AddressSpace)
  | createSpace (space : Option AddressSpace)
  | releaseSpace (space : AddressSpace)
  | mapPage (space : AddressSpace) (page : Page) (frame : Frame) (user : Bool)
  | unmapPage (space : AddressSpace) (page : Page)
  | zeroRange (address length : Nat)
  | copyIn (address length : Nat)
  /-- The call before this one stopped at an address out of reach. -/
  | unreachable (address : Nat)
  | endOfInterrupt (line : Nat)
  | setKernelStack (top : Nat)
  | readFaultAddress
  | dump (report : FaultReport)
  | halt
  | note (notice : Notice)
  deriving DecidableEq, Repr

/-- A machine and the calls made to it, the last one first. -/
structure Traced (π : Type) where
  machine : π
  latest : List Call := []

namespace Traced

variable {π : Type}

/-- The calls made, the first one first. -/
def calls (t : Traced π) : List Call := t.latest.reverse

def record (t : Traced π) (calls : List Call) (machine : π) : Traced π :=
  ⟨machine, calls.reverse ++ t.latest⟩

def cleared (t : Traced π) : Traced π := ⟨t.machine, []⟩

@[simp] theorem calls_record (t : Traced π) (calls : List Call) (machine : π) :
    (t.record calls machine).calls = t.calls ++ calls := by
  simp only [record, Traced.calls, List.reverse_append, List.reverse_reverse]

@[simp] theorem machine_record (t : Traced π) (calls : List Call) (machine : π) :
    (t.record calls machine).machine = machine := rfl

/-- The space that was created, if one was. -/
def created : Except MapError AddressSpace → Option AddressSpace
  | .ok space => some space
  | .error _ => none

/-- A call that moves bytes, and where it stopped if it did. -/
def transfer (c : Call) : Option Nat → List Call
  | none => [c]
  | some a => [c, .unreachable a]

instance [Platform π] : Platform (Traced π) where
  allocateFrame t :=
    let (frame, m) := KernelCore.allocateFrame t.machine
    (frame, t.record [.allocateFrame frame] m)
  releaseFrame f t :=
    let (dropped, m) := KernelCore.releaseFrame f t.machine
    (dropped, t.record [.releaseFrame f] m)
  activeSpace t := KernelCore.activeSpace t.machine
  activate space t := t.record [.activate space] (KernelCore.activate space t.machine)
  createSpace t :=
    let (result, m) := KernelCore.createSpace t.machine
    (result, t.record [.createSpace (created result)] m)
  releaseSpace space t :=
    let (dropped, m) := KernelCore.releaseSpace space t.machine
    (dropped, t.record [.releaseSpace space] m)
  isMapped t space page := KernelCore.isMapped t.machine space page
  mapPage space page frame user t :=
    let (result, m) := KernelCore.mapPage space page frame user t.machine
    (result, t.record [.mapPage space page frame user] m)
  unmapPage space page t :=
    let (frame, m) := KernelCore.unmapPage space page t.machine
    (frame, t.record [.unmapPage space page] m)
  zeroRange a length t :=
    let (stop, m) := KernelCore.zeroRange a length t.machine
    (stop, t.record (transfer (.zeroRange a length) stop) m)
  copyIn a bytes t :=
    let (stop, m) := KernelCore.copyIn a bytes t.machine
    (stop, t.record (transfer (.copyIn a bytes.size) stop) m)
  hasStackRoom t := KernelCore.hasStackRoom t.machine
  stackRegion t := KernelCore.stackRegion t.machine
  endOfInterrupt line t :=
    t.record [.endOfInterrupt line] (KernelCore.endOfInterrupt line t.machine)
  setKernelStack top t := t.record [.setKernelStack top] (KernelCore.setKernelStack top t.machine)
  readFaultAddress t :=
    let (a, m) := KernelCore.readFaultAddress t.machine
    (a, t.record [.readFaultAddress] m)
  dump report t := t.record [.dump report] (KernelCore.dump report t.machine)
  halt t := t.record [.halt] (KernelCore.halt t.machine)
  memory t := KernelCore.memory t.machine
  setMemory m t := t.record [] (KernelCore.setMemory m t.machine)
  note n t := t.record [.note n] (KernelCore.note n t.machine)

end Traced
end KernelCore
