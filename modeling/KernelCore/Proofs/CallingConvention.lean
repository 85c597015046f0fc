import KernelCore.Proofs.FailedSyscalls
import KernelCore.Proofs.TrapRouting
import Mathlib.Tactic.IntervalCases

/-!
# The calling convention

A system call is named in `rax`, takes its arguments from five other registers and leaves its result
in `rax`; no other register changes. The handler that runs is the one registered last for the number,
and where there is none, the caller finds a negative code and nothing has run. The numbers for which
a handler is registered at boot are those that name a call.
-/
namespace KernelCore

variable {δ : Type}

namespace SyscallError

/-- Read as a signed number, the word in the register is the code. -/
theorem toInt_word (e : SyscallError) : e.word.toInt64.toInt = e.code := by cases e <;> rfl

end SyscallError

namespace Trapframe

/-- The two lowest bits of `cs` tell the ring. -/
theorem fromUser_eq (f : Trapframe) : f.fromUser = decide (f.cs &&& 3 = 3) := by
  have low : (f.cs &&& 3).toNat = f.cs.toNat % 4 := by
    rw [UInt64.toNat_and]
    exact Nat.and_two_pow_sub_one_eq_mod _ 2
  rw [Bool.eq_iff_iff, decide_eq_true_eq, ← UInt64.toNat_inj, low]
  exact beq_iff_eq

end Trapframe

namespace SyscallTable

/-- Registers handlers one after the other. Those for a number outside the table are refused. -/
def install (t : SyscallTable δ) (registered : List (Nat × SyscallHandler δ)) : SyscallTable δ :=
  registered.foldl (fun t r => (t.register r.1 r.2).2) t

/-- Each number keeps the handler that came last, or the one that it had before if none came. -/
theorem handler?_install (t : SyscallTable δ) (registered : List (Nat × SyscallHandler δ))
    {number : Nat} (known : number < maxSyscalls) :
    (t.install registered).handler? number =
      (lastFor registered number).or (t.handler? number) := by
  induction registered generalizing t with
  | nil => rfl
  | cons first registered ih =>
    have rest := ih (t.register first.1 first.2).2
    rw [Handlers.handler?_register] at rest
    rw [lastFor_cons, Option.or_assoc]
    refine rest.trans ?_
    by_cases here : first.1 = number <;> simp [here, known]

theorem handler?_of_le (t : SyscallTable δ) {number : Nat} (h : maxSyscalls ≤ number) :
    t.handler? number = none := dif_neg (Nat.not_lt.mpr h)

variable [Services δ]

/-- How a call ends, if `handler?` are the handlers of the numbers in the table. -/
structure Served (handler? : Nat → Option (SyscallHandler δ)) (f : Trapframe) (env : Env δ)
    (f' : Trapframe) (env' : Env δ) : Prop where
  others (r : Register) (h : r ≠ .rax) : f'.get r = f.get r
  /-- All that has happened is one run of the handler, and a notice of it. -/
  handled (handler : SyscallHandler δ) (known : f.rax.toNat < maxSyscalls)
    (h : handler? f.rax.toNat = some handler) :
    ∃ result after n,
      handler ⟨f.rax, f.rbx, f.rcx, f.rdx, f.rsi, f.rdi, decide (f.cs &&& 3 = 3)⟩ env =
        (result, after) ∧
      env' = ⟨after.memory, noted [n] after.services⟩ ∧
      match result with
      | .ok value => f'.rax = value
      | .error e => f'.rax.toInt64.toInt = e.code
  /-- All that has happened is a warning and a notice. -/
  missing (h : maxSyscalls ≤ f.rax.toNat ∨ handler? f.rax.toNat = none) :
    f'.rax.toInt64.toInt = -38 ∧
      ∃ warning n, env' = ⟨env.memory, noted [warning, n] env.services⟩

/-- What a frame and its services come to is decided by the handler found for its number. -/
theorem served_handle (t : SyscallTable δ) (f : Trapframe) (env : Env δ) :
    Served t.handler? f env (t.handle f env).1 (t.handle f env).2 where
  others r h := by
    rw [handle]
    exact f.get_set_other _ h
  handled handler _ h := by
    rw [← f.fromUser_eq]
    rcases ran : handler (.ofFrame f) env with ⟨result, after⟩
    have found : t.run (.ofFrame f) env = (result, after) := by
      rw [run, show (SyscallContext.ofFrame f).number = f.rax from rfl, h]
      exact ran
    rw [handle_of_run found]
    refine ⟨result, after, _, ran, rfl, ?_⟩
    cases result with
    | ok value => rfl
    | error e => exact e.toInt_word
  missing h := by
    have none : t.handler? f.rax.toNat = none := by
      cases h with
      | inl outside => exact t.handler?_of_le outside
      | inr free => exact free
    rw [handle, run, show (SyscallContext.ofFrame f).number = f.rax from rfl, none]
    exact ⟨SyscallError.toInt_word .notImplemented, _, _, rfl⟩

end SyscallTable

namespace Handlers

variable [Services δ]

/-- The handler that a call has from the start. -/
def standard : SyscallNumber → Option (SyscallHandler δ)
  | .exit => some exit
  | .read => some read
  | .write => some write
  | .windowOpen => some windowOpen
  | .drawText => some drawText
  | .fillRect => some fillRect
  | .eventPoll => some eventPoll
  | .shellExec => some shellExec
  | .getChar => some getChar
  | .unknown => none

theorem isSome_standard (n : SyscallNumber) :
    (standard (δ := δ) n).isSome = true ↔ n ≠ .unknown := by cases n <;> simp [standard]

/-- No call has a number outside the table. -/
theorem ofValue_of_le {number : Nat} (h : maxSyscalls ≤ number) :
    SyscallNumber.ofValue number = .unknown := by
  have outside : ∀ n ∈ SyscallNumber.known, n.value < maxSyscalls := by decide
  rw [SyscallNumber.ofValue, List.find?_eq_none.mpr]
  · rfl
  · intro n mem
    have inside := outside n mem
    simp only [decide_eq_true_eq]
    omega

/-- The table after boot, the numbers and the names of the calls agree. -/
theorem handler?_registerAll (booted : δ) (number : Nat) :
    (registerAll .empty booted).2.1.handler? number = standard (.ofValue number) := by
  by_cases known : number < maxSyscalls
  · rw [maxSyscalls] at known
    interval_cases number <;> rfl
  · rw [SyscallTable.handler?_of_le _ (by omega), ofValue_of_le (by omega), standard]

end Handlers

namespace SyscallTable

variable [Services δ]

/-- For every table, whatever was registered and whatever the frame holds, a call keeps to the
convention, and it is the last handler registered for its number that runs. After boot exactly the
numbers that name a call have a handler, each its own. -/
theorem handle_convention (t : SyscallTable δ) (registered : List (Nat × SyscallHandler δ))
    (f : Trapframe) (env : Env δ) (booted : δ) :
    Served (fun number => (lastFor registered number).or (t.handler? number)) f env
        ((t.install registered).handle f env).1 ((t.install registered).handle f env).2 ∧
      (Handlers.registerAll .empty booted).1 = .ok () ∧
      ∀ n : UInt64,
        (Handlers.registerAll .empty booted).2.1.handler? n.toNat =
          Handlers.standard (.ofValue n.toNat) ∧
        ((Handlers.registerAll .empty booted).2.1.isRegistered n.toNat = true ↔
          SyscallNumber.ofValue n.toNat ≠ .unknown) := by
  have served := (t.install registered).served_handle f env
  refine ⟨{ served with handled := ?_, missing := ?_ }, rfl, fun n => ⟨?_, ?_⟩⟩
  · intro handler known h
    rw [← t.handler?_install registered known] at h
    exact served.handled handler known h
  · intro h
    apply served.missing
    by_cases known : f.rax.toNat < maxSyscalls
    · rw [t.handler?_install registered known]
      exact .inr (h.resolve_left (Nat.not_le.mpr known))
    · exact .inl (Nat.not_lt.mp known)
  · exact Handlers.handler?_registerAll booted n.toNat
  · rw [isRegistered, Handlers.handler?_registerAll]
    exact Handlers.isSome_standard _

end SyscallTable
end KernelCore
