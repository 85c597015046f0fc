import KernelCore.Services
import KernelCore.Syscall

/-!
# The system call table

One handler for each number. `handle` runs the handler that a trap names and leaves its result in
`rax`, the one register that a system call changes.
-/
namespace KernelCore

def maxSyscalls : Nat := 16

/-- The work of one system call. -/
abbrev SyscallHandler (δ : Type) := SyscallContext → Env δ → Except SyscallError UInt64 × Env δ

structure SyscallTable (δ : Type) where
  handlers : Fin maxSyscalls → Option (SyscallHandler δ)

namespace SyscallTable

variable {δ : Type}

def empty : SyscallTable δ := ⟨fun _ => none⟩

/-- Installs a handler in place of the one before. -/
def register (t : SyscallTable δ) (number : Nat) (handler : SyscallHandler δ) :
    Except SyscallError Unit × SyscallTable δ :=
  if h : number < maxSyscalls then
    (.ok (), ⟨fun n => if n = ⟨number, h⟩ then some handler else t.handlers n⟩)
  else (.error .invalidSyscall, t)

def handler? (t : SyscallTable δ) (number : Nat) : Option (SyscallHandler δ) :=
  if h : number < maxSyscalls then t.handlers ⟨number, h⟩ else none

def isRegistered (t : SyscallTable δ) (number : Nat) : Bool := (t.handler? number).isSome

variable [Services δ]

/-- Adds a notice to the journal of the services. -/
def noteTo (n : Notice) (env : Env δ) : Env δ :=
  { env with services := Journal.note n env.services }

/-- Runs the handler of a call. A call without one is not implemented. -/
def run (t : SyscallTable δ) (c : SyscallContext) (env : Env δ) :
    Except SyscallError UInt64 × Env δ :=
  match t.handler? c.number.toNat with
  | some handler => handler c env
  | none =>
    let reason := if c.number.toNat < maxSyscalls then "no handler for " else "invalid syscall "
    (.error .notImplemented,
      noteTo (.warn ("syscall: " ++ reason ++ toString c.number.toNat)) env)

/-- What a result leaves in `rax`. -/
def resultWord : Except SyscallError UInt64 → UInt64
  | .ok value => value
  | .error e => e.word

/-- Serves the call that a trap frame describes. -/
def handle (t : SyscallTable δ) (f : Trapframe) (env : Env δ) : Trapframe × Env δ :=
  let c := SyscallContext.ofFrame f
  let (result, env) := t.run c env
  ({ f with rax := resultWord result }, noteTo (.trace ("syscall: " ++ c.text result)) env)

end SyscallTable
end KernelCore
