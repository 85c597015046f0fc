import KernelCore.Trapframe
import KernelCore.TrapVector

/-!
# Fault reports

What the kernel writes when a processor exception stops it: the name of the exception, the address
accessed if it was a page fault, and the trap frame.
-/
namespace KernelCore

/-- The names of the exceptions, by vector. -/
def exceptionNames : List String :=
  ["DIVIDE ERROR", "DEBUG", "NON-MASKABLE INTERRUPT", "BREAKPOINT", "OVERFLOW",
    "BOUND RANGE EXCEEDED", "INVALID OPCODE", "DEVICE NOT AVAILABLE", "DOUBLE FAULT",
    "COPROCESSOR SEGMENT OVERRUN", "INVALID TSS", "SEGMENT NOT PRESENT", "STACK-SEGMENT FAULT",
    "GENERAL PROTECTION FAULT", "PAGE FAULT", "RESERVED", "x87 FLOATING-POINT", "ALIGNMENT CHECK",
    "MACHINE CHECK", "SIMD FLOATING-POINT", "VIRTUALIZATION", "CONTROL PROTECTION", "RESERVED",
    "RESERVED", "RESERVED", "RESERVED", "RESERVED", "RESERVED", "HYPERVISOR INJECTION",
    "VMM COMMUNICATION", "SECURITY", "RESERVED"]

theorem length_exceptionNames : exceptionNames.length = exceptionCount := rfl

def exceptionName (vector : Nat) : String := exceptionNames.getD vector "UNKNOWN"

structure FaultReport where
  frame : Trapframe
  faultAddress : Option UInt64
  deriving DecidableEq, Repr

namespace FaultReport

def headline (r : FaultReport) : String :=
  "EXCEPTION: " ++ exceptionName r.frame.vector.toNat ++ " (vector " ++
    toString r.frame.vector.toNat ++ ", error code " ++ hex r.frame.errorCode.toNat ++ ")\n"

/-- The line of the accessed address, if there is one. -/
def addressLine : Option UInt64 → String
  | none => ""
  | some a => "Accessed Address: " ++ wordHex a.toNat ++ "\n"

def text (r : FaultReport) : String :=
  r.headline ++ addressLine r.faultAddress ++ r.frame.text

end FaultReport

end KernelCore
