import KernelCore.LittleEndian

/-!
# Gate descriptors

The sixteen bytes of one entry of the interrupt vector table: the address of a handler in three
pieces, a code selector, a stack index and the attribute byte.
-/
namespace KernelCore

/-- Whether the processor disables interrupts when it goes through the gate. -/
inductive GateType where
  | interrupt
  | trap
  deriving DecidableEq, Repr

def GateType.code : GateType → UInt8
  | .interrupt => 0xe
  | .trap => 0xf

/-- The fields of a gate, in memory order. -/
structure GateDescriptor where
  offsetLow : UInt16 := 0
  selector : UInt16 := 0
  stackSlot : UInt8 := 0
  attributes : UInt8 := 0
  offsetMid : UInt16 := 0
  offsetHigh : UInt32 := 0
  reserved : UInt32 := 0
  deriving DecidableEq, Repr

namespace GateDescriptor

def missing : GateDescriptor := {}

/-- A gate to `handler` that privilege level `privilege` and more privileged code may use. -/
def new (handler : UInt64) (selector : UInt16) (privilege : Fin 4) (type : GateType) :
    GateDescriptor where
  offsetLow := handler.toUInt16
  selector := selector
  attributes := (0x80 : UInt8) ||| (UInt8.ofNat privilege.val <<< 5) ||| type.code
  offsetMid := (handler >>> 16).toUInt16
  offsetHigh := (handler >>> 32).toUInt32

/-- The gate with a stack of its own. The descriptor counts stacks from one, and zero stands for
none, so index 255 leaves the gate without one. -/
def withStackIndex (g : GateDescriptor) (index : UInt16) : GateDescriptor :=
  { g with stackSlot := (index + 1).toUInt8 }

def handler (g : GateDescriptor) : UInt64 :=
  g.offsetLow.toUInt64 ||| (g.offsetMid.toUInt64 <<< 16) ||| (g.offsetHigh.toUInt64 <<< 32)

def present (g : GateDescriptor) : Bool := g.attributes &&& 0x80 != 0

def privilege (g : GateDescriptor) : UInt8 := (g.attributes >>> 5) &&& 3

/-- The index of the gate's own stack, if it has one. -/
def stackIndex (g : GateDescriptor) : Option Nat :=
  if g.stackSlot = 0 then none else some (g.stackSlot.toNat - 1)

def bytes (g : GateDescriptor) : List UInt8 :=
  LittleEndian.toBytes 2 g.offsetLow.toNat ++ LittleEndian.toBytes 2 g.selector.toNat ++
    [g.stackSlot, g.attributes] ++ LittleEndian.toBytes 2 g.offsetMid.toNat ++
    LittleEndian.toBytes 4 g.offsetHigh.toNat ++ LittleEndian.toBytes 4 g.reserved.toNat

theorem length_bytes (g : GateDescriptor) : g.bytes.length = 16 := by simp [bytes]

@[simp] theorem present_missing : missing.present = false := rfl

end GateDescriptor
end KernelCore
