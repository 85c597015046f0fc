import KernelCore.VectorTable
import Mathlib.Data.Nat.Bitwise

/-!
# Installed gates

A gate keeps the address of its handler in three pieces, and who may go through it in one byte. What
is read from it is what it was made of. The table is filled range by range, while a trap is
classified by its vector; `gate_populate` brings the two together. So a trap of any kind goes
through the gate with the stub for that kind, and where there is no stub there is no gate.
-/
namespace KernelCore

/-- A number is made of its bits below a place and of those from there on. -/
theorem low_or_high (n k : Nat) : n % 2 ^ k ||| n / 2 ^ k * 2 ^ k = n := by
  rw [Nat.or_comm, ← Nat.shiftLeft_eq, ← Nat.shiftLeft_add_eq_or_of_lt
    (Nat.mod_lt _ (Nat.two_pow_pos k)), Nat.shiftLeft_eq, Nat.div_add_mod']

namespace GateDescriptor

variable {g : GateDescriptor} {handler : UInt64} {selector : UInt16} {privilege : Fin 4}
  {type : GateType} {stack : Option Nat} {index : UInt16}

/-- The type that the lowest four bits of the attributes stand for, if they stand for one. -/
def type? (g : GateDescriptor) : Option GateType :=
  if g.attributes &&& 0xf = GateType.interrupt.code then some .interrupt
  else if g.attributes &&& 0xf = GateType.trap.code then some .trap
  else none

/-- What is read from a present gate. -/
structure Decodes (g : GateDescriptor) (handler : UInt64) (selector : UInt16) (privilege : Fin 4)
    (type : GateType) (stack : Option Nat) : Prop where
  present : g.present = true
  handler : g.handler = handler
  selector : g.selector = selector
  privilege : g.privilege.toNat = privilege.val
  type : g.type? = some type
  stackIndex : g.stackIndex = stack

/-! ### The descriptor -/

theorem or_pieces (n : Nat) :
    n % 2 ^ 16 ||| n / 2 ^ 16 % 2 ^ 16 * 2 ^ 16 ||| n / 2 ^ 32 * 2 ^ 32 = n := by
  have lower := low_or_high (n % 2 ^ 32) 16
  rw [show n % 2 ^ 32 % 2 ^ 16 = n % 2 ^ 16 by omega,
    show n % 2 ^ 32 / 2 ^ 16 = n / 2 ^ 16 % 2 ^ 16 by omega] at lower
  rw [lower, low_or_high]

/-- The pieces of an address make up the address, whatever its bits are. -/
theorem handler_new (handler : UInt64) (selector : UInt16) (privilege : Fin 4) (type : GateType) :
    (new handler selector privilege type).handler = handler := by
  have mid : handler.toNat / 2 ^ 16 % 2 ^ 16 * 2 ^ 16 < 2 ^ 64 := by omega
  have high : handler.toNat / 2 ^ 32 * 2 ^ 32 < 2 ^ 64 :=
    Nat.lt_of_le_of_lt (Nat.div_mul_le_self _ _) handler.toNat_lt
  have top : handler.toNat / 2 ^ 32 % 2 ^ 32 = handler.toNat / 2 ^ 32 := by
    have bound := handler.toNat_lt
    exact Nat.mod_eq_of_lt (by omega)
  apply UInt64.toNat.inj
  rw [← or_pieces handler.toNat, ← Nat.mod_eq_of_lt mid, ← Nat.mod_eq_of_lt high, ← top]
  simp [GateDescriptor.handler, new, Nat.shiftLeft_eq, Nat.shiftRight_eq_div_pow]

/-- There are eight attribute bytes, so one can look at each of them. -/
theorem attributes_new (privilege : Fin 4) (type : GateType) :
    (new 0 0 privilege type).present = true ∧
      (new 0 0 privilege type).privilege.toNat = privilege.val ∧
      (new 0 0 privilege type).type? = some type := by
  cases type <;> revert privilege <;> decide

theorem decodes_new (handler : UInt64) (selector : UInt16) (privilege : Fin 4) (type : GateType) :
    (new handler selector privilege type).Decodes handler selector privilege type none where
  present := (attributes_new privilege type).1
  handler := handler_new handler selector privilege type
  selector := rfl
  privilege := (attributes_new privilege type).2.1
  type := (attributes_new privilege type).2.2
  stackIndex := rfl

/-- The descriptor has eight bits for the index, and one value of them stands for none. -/
theorem stackIndex_withStackIndex (g : GateDescriptor) (small : index.toNat < 255) :
    (g.withStackIndex index).stackIndex = some index.toNat := by
  have slot : (index + 1).toUInt8.toNat = index.toNat + 1 := by
    simp
    omega
  have some_slot : (index + 1).toUInt8 ≠ 0 := by
    intro none
    rw [none] at slot
    cases slot
  rw [stackIndex, withStackIndex, if_neg some_slot, slot, Nat.add_sub_cancel]

theorem Decodes.withStackIndex (h : g.Decodes handler selector privilege type stack)
    (small : index.toNat < 255) :
    (g.withStackIndex index).Decodes handler selector privilege type (some index.toNat) where
  present := h.present
  handler := h.handler
  selector := h.selector
  privilege := h.privilege
  type := h.type
  stackIndex := stackIndex_withStackIndex g small

end GateDescriptor

namespace TrapKind

variable {n m : Nat}

theorem classify_eq_syscall_iff : classify n = .syscall ↔ n = syscallVector := by
  have place : syscallVector = 128 ∧ exceptionCount = 32 ∧ firstLineVector = 32 ∧ lineCount = 16 :=
    ⟨rfl, rfl, rfl, rfl⟩
  simp only [classify]
  repeat' split
  all_goals simp only [reduceCtorEq, false_iff, true_iff]
  all_goals omega

theorem classify_eq_exception_iff : classify n = .exception m ↔ n < exceptionCount ∧ n = m := by
  unfold classify
  split
  case isTrue exception => simp [exception]
  case isFalse exception =>
    simp only [exception, false_and, iff_false]
    repeat' split
    all_goals exact TrapKind.noConfusion

theorem eq_of_classify_eq_unexpected (h : classify n = .unexpected m) : n = m := by
  simp only [classify] at h
  repeat' split at h
  all_goals cases h
  rfl

end TrapKind

open GateDescriptor

/-- The stub that handles a kind of trap, if there is one. -/
def EntryStubs.stubFor (stubs : EntryStubs) : TrapKind → Option UInt64
  | .exception n => some (stubs.exceptions n)
  | .line n => some (stubs.lines n)
  | .syscall => some stubs.syscall
  | .unexpected vector => if vector = spuriousVector then some stubs.spurious else none

namespace VectorTable

/-- The gate that a kind of trap is to go through. -/
def gateFor (stubs : EntryStubs) : TrapKind → GateDescriptor
  | .exception n =>
    if n = doubleFaultVector then (kernelGate (stubs.exceptions n)).withStackIndex doubleFaultStack
    else kernelGate (stubs.exceptions n)
  | .line n => kernelGate (stubs.lines n)
  | .syscall => .new stubs.syscall SegmentSelector.kernelCode (Fin.last 3) .interrupt
  | .unexpected vector => if vector = spuriousVector then kernelGate stubs.spurious else .missing

/-- Each gate lies where the traps of its kind arrive. -/
theorem gate_populate (t : VectorTable) (stubs : EntryStubs) (v : UInt8) :
    (t.populate stubs).gate v = gateFor stubs (.classify v.toNat) := by
  have at_vector (n : Nat) (small : n < 256) : v = UInt8.ofNat n ↔ v.toNat = n := by
    rw [← UInt8.toNat_inj, UInt8.toNat_ofNat', Nat.mod_eq_of_lt small]
  simp only [populate, set, setRange, empty, TrapKind.classify, at_vector,
    spuriousVector, syscallVector, doubleFaultVector, firstLineVector, lineCount, exceptionCount,
    Nat.reduceLT, Nat.zero_le, Nat.sub_zero, true_and]
  generalize v.toNat = n
  by_cases exception : n < 32
  · have others : n ≠ 255 ∧ n ≠ 128 ∧ ¬ (32 ≤ n ∧ n - 32 < 16) := by omega
    by_cases double : n = 8 <;> simp [gateFor, doubleFaultVector, exception, others, double]
  · by_cases line : 32 ≤ n ∧ n < 32 + 16
    · have others : n ≠ 255 ∧ n ≠ 128 ∧ n - 32 < 16 := by omega
      simp [gateFor, exception, line, others]
    · have others : n ≠ 8 ∧ ¬ (32 ≤ n ∧ n - 32 < 16) := by omega
      by_cases syscall : n = 128
      · simp [gateFor, syscall]
      · by_cases spurious : n = 255 <;>
          simp [gateFor, spuriousVector, exception, line, others, syscall, spurious]

/-- A gate is as its stub wants it. System calls come from ring 3, and a double fault needs a stack
that is in order. -/
theorem decodes_gateFor {stubs : EntryStubs} {kind : TrapKind} {stub : UInt64}
    (found : stubs.stubFor kind = some stub) :
    (gateFor stubs kind).Decodes stub SegmentSelector.kernelCode
      (if kind = .syscall then 3 else 0) .interrupt
      (if kind = .exception doubleFaultVector then some doubleFaultStack.toNat else none) := by
  cases kind with
  | exception n =>
    cases found
    by_cases double : n = doubleFaultVector
    · simp only [gateFor, double, if_true, reduceCtorEq, if_false]
      exact (decodes_new _ _ _ _).withStackIndex (by decide)
    · simp only [gateFor, double, TrapKind.exception.injEq, reduceCtorEq, if_false]
      exact decodes_new _ _ _ _
  | line n =>
    cases found
    exact decodes_new _ _ _ _
  | syscall =>
    cases found
    exact decodes_new _ _ _ _
  | unexpected vector =>
    by_cases spurious : vector = spuriousVector
    · simp only [EntryStubs.stubFor, spurious, if_true] at found
      cases found
      simp only [gateFor, spurious, if_true]
      exact decodes_new _ _ _ _
    · simp [EntryStubs.stubFor, spurious] at found

theorem gateFor_of_none {stubs : EntryStubs} {kind : TrapKind}
    (none : stubs.stubFor kind = none) : gateFor stubs kind = .missing := by
  cases kind with
  | unexpected vector =>
    by_cases spurious : vector = spuriousVector
    · simp [EntryStubs.stubFor, spurious] at none
    · simp [gateFor, spurious]
  | _ => cases none

/-- A gate is made for the kind of trap that arrives there, or is missing. -/
theorem gate_cases (t : VectorTable) (stubs : EntryStubs) (v : UInt8) :
    (∃ stub, stubs.stubFor (.classify v.toNat) = some stub ∧
      ((t.populate stubs).gate v).Decodes stub SegmentSelector.kernelCode
        (if v.toNat = syscallVector then 3 else 0) .interrupt
        (if v.toNat = doubleFaultVector then some doubleFaultStack.toNat else none)) ∨
    stubs.stubFor (.classify v.toNat) = none ∧ (t.populate stubs).gate v = .missing := by
  rw [gate_populate]
  cases found : stubs.stubFor (.classify v.toNat) with
  | none => exact .inr ⟨rfl, gateFor_of_none found⟩
  | some stub =>
    have double : TrapKind.classify v.toNat = .exception doubleFaultVector ↔
        v.toNat = doubleFaultVector := by
      rw [TrapKind.classify_eq_exception_iff]
      exact ⟨And.right, fun here => ⟨here ▸ by decide, here⟩⟩
    have decodes := decodes_gateFor found
    simp only [TrapKind.classify_eq_syscall_iff, double] at decodes
    exact .inl ⟨stub, rfl, decodes⟩

theorem isSome_stubFor_classify (stubs : EntryStubs) (n : Nat) :
    (stubs.stubFor (.classify n)).isSome = true ↔
      (∃ m, TrapKind.classify n = .exception m) ∨ (∃ line, TrapKind.classify n = .line line) ∨
        TrapKind.classify n = .syscall ∨ n = spuriousVector := by
  cases kind : TrapKind.classify n with
  | exception m => simp [EntryStubs.stubFor]
  | line m => simp [EntryStubs.stubFor]
  | syscall => simp [EntryStubs.stubFor]
  | unexpected m =>
    rw [TrapKind.eq_of_classify_eq_unexpected kind]
    by_cases spurious : m = spuriousVector <;> simp [EntryStubs.stubFor, spurious]

/-- Whatever was in the table before and wherever the stubs lie: the gates that are present are
those of exceptions, device lines, system calls and spurious interrupts, and each of them leads to
the stub for just what arrives there. Ring 3 may use the gate of system calls and no other, and the
double fault alone has a stack of its own. For every gate can be read back: what is read from it is
what it was made of. -/
theorem populate_agrees (t : VectorTable) (stubs : EntryStubs) :
    (∀ v : UInt8, let g := (t.populate stubs).gate v
      (g.present = true ↔
        (∃ n, TrapKind.classify v.toNat = .exception n) ∨
          (∃ line, TrapKind.classify v.toNat = .line line) ∨
          TrapKind.classify v.toNat = .syscall ∨ v.toNat = spuriousVector) ∧
      (g.present = true → ∃ stub, stubs.stubFor (.classify v.toNat) = some stub ∧
        g.Decodes stub SegmentSelector.kernelCode (if v.toNat = syscallVector then 3 else 0)
          .interrupt
          (if v.toNat = doubleFaultVector then some doubleFaultStack.toNat else none)) ∧
      (g.privilege = 3 ↔ v.toNat = syscallVector) ∧
      (g.stackIndex.isSome = true ↔ v.toNat = doubleFaultVector)) ∧
    ∀ handler selector privilege type,
      (GateDescriptor.new handler selector privilege type).Decodes handler selector privilege type
        none ∧
      ∀ index : UInt16, index.toNat < 255 →
        ((GateDescriptor.new handler selector privilege type).withStackIndex index).Decodes
          handler selector privilege type (some index.toNat) := by
  constructor
  · intro v g
    rw [← isSome_stubFor_classify stubs]
    rcases gate_cases t stubs v with ⟨stub, found, decodes⟩ | ⟨none, missing⟩
    · refine ⟨iff_of_true decodes.present (by simp [found]), fun _ => ⟨stub, found, decodes⟩,
        ?_, ?_⟩
      · rw [← UInt8.toNat_inj, decodes.privilege]
        split
        · exact iff_of_true rfl ‹_›
        · exact iff_of_false (by decide) ‹_›
      · rw [decodes.stackIndex]
        split
        · exact iff_of_true rfl ‹_›
        · exact iff_of_false (by decide) ‹_›
    · have unrouted := (isSome_stubFor_classify stubs v.toNat).not.mp (by simp [none])
      simp only [not_or, not_exists] at unrouted
      have other : v.toNat ≠ syscallVector := fun here =>
        unrouted.2.2.1 (TrapKind.classify_eq_syscall_iff.mpr here)
      have single : v.toNat ≠ doubleFaultVector := fun here =>
        unrouted.1 doubleFaultVector
          (TrapKind.classify_eq_exception_iff.mpr ⟨here ▸ by decide, here⟩)
      rw [show g = .missing from missing]
      exact ⟨iff_of_false (by decide) (by simp [none]), fun present => absurd present (by decide),
        iff_of_false (by decide) other, iff_of_false (by decide) single⟩
  · intro handler selector privilege type
    have decodes := decodes_new handler selector privilege type
    exact ⟨decodes, fun index small => decodes.withStackIndex small⟩

end VectorTable
end KernelCore
