import KernelCore.Platform

/-!
# Fatal traps

Every processor exception ends here: it is reported once and the processor is stopped. The guard
remembers that a report was written, so that a fault during the report is not reported again.
-/
namespace KernelCore

/-- Whether a fault was reported already. -/
structure FatalGuard where
  active : Bool := false
  deriving DecidableEq, Repr

namespace FatalGuard

variable {π : Type} [Platform π]

/-- Writes the report of a fault, unless one was written before. Answers whether it did. -/
def report (g : FatalGuard) (r : FaultReport) (p : π) : Bool × FatalGuard × π :=
  if g.active then (false, g, p) else (true, ⟨true⟩, dump r p)

/-- The address that a trap accessed, which only a page fault leaves behind. -/
def accessedAddress (f : Trapframe) (p : π) : Option UInt64 × π :=
  if f.vector.toNat = pageFaultVector then
    let (a, p) := readFaultAddress p
    (some a, p)
  else (none, p)

/-- Reports an exception, if it is the first one, and stops the processor. -/
def trap (g : FatalGuard) (f : Trapframe) (p : π) : FatalGuard × π :=
  if g.active then (g, halt p)
  else
    let (address, p) := accessedAddress f p
    let (_, g, p) := g.report ⟨f, address⟩ p
    (g, halt p)

theorem active_trap (g : FatalGuard) (f : Trapframe) (p : π) : (g.trap f p).1.active = true := by
  unfold trap
  split
  · assumption
  · simp [report, *]

end FatalGuard
end KernelCore
