import KernelCore.KernelStack
import KernelCore.Platform

/-!
# User stacks

The stacks on which processes of ring 3 run. Each slot of the process table has a range of its own
below the top of the user half, and between two ranges lies one page that is never mapped.
-/
namespace KernelCore.UserStack

/-- Where the range of slot 0 ends. -/
def regionTop : Nat := 0x7ffff0000000

/-- Distance of the ranges of two neighbouring slots. -/
def stride : Nat := KernelStack.defaultSize + pageSize

/-- The address just above the stack of a slot. -/
def top (slot : Nat) : Nat := regionTop - slot * stride

def pages (slot : Nat) : List Page :=
  pagesFrom ((top slot - KernelStack.defaultSize) / pageSize) (KernelStack.defaultSize / pageSize)

variable {π : Type} [Platform π]

/-- Maps the stack of a slot. Pages that are there already stay as they are; if one of the others
cannot be mapped, those mapped before it are taken out again. -/
def map (space : AddressSpace) (slot : Nat) (p : π) : Except MapError Nat × π :=
  match mapAllFresh space true (fun p page => isMapped p space page) (pages slot) [] p with
  | (.ok (), p) => (.ok (top slot), p)
  | (.error e, p) => (.error (e.getD .frameAllocationFailed), p)

end KernelCore.UserStack
