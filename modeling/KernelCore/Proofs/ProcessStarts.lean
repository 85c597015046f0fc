import KernelCore.Proofs.CallingConvention
import KernelCore.Proofs.ProcessOrigins

/-!
# How processes start

A process that is made ready to run starts from the entry point that it was added with, in its ring,
with cleared registers and the stack of that ring. The frame that says so takes the highest bytes of
its own stack in the kernel. No other frame is written, and nothing else happens to the table.
-/
namespace KernelCore

/-- Where a frame on a stack begins, if the stacks of the processes lie in this region. -/
def FramePlace.address? (region : Nat) : FramePlace → Option Nat
  | .outside _ => none
  | .onStack owner depth => some ((KernelStack.forProcess region owner).top - depth)

namespace KernelStack

/-- The stacks have no byte in common. -/
def Disjoint (s s' : KernelStack) : Prop := s.top ≤ s'.base ∨ s'.top ≤ s.base

/-- The frame that a process starts from takes the highest bytes of the stack. -/
structure HoldsFrame (s : KernelStack) (address : Nat) : Prop where
  base_le : s.base ≤ address
  top_eq : address + Trapframe.size = s.top

theorem disjoint_forProcess (region : Nat) {pid pid' : Nat} (h : pid ≠ pid') :
    Disjoint (forProcess region pid) (forProcess region pid') := by
  rcases Nat.lt_or_gt_of_ne h with lower | higher
  · exact .inl (Nat.le_of_lt (top_lt_base region lower))
  · exact .inr (Nat.le_of_lt (top_lt_base region higher))

/-- A stack is only allocated if the frame has room on it. -/
theorem holdsFrame_of_allocate? {base size : Nat} {s : KernelStack}
    (h : allocate? base size = some s) : HoldsFrame s s.frameSlot := by
  have room := size_of_allocate? h
  constructor
  · rw [frameSlot, top]
    omega
  · rw [frameSlot, top]
    omega

theorem holdsFrame_forProcess (region pid : Nat) :
    HoldsFrame (forProcess region pid) (forProcess region pid).frameSlot :=
  holdsFrame_of_allocate? (allocate?_baseFor region pid)

/-- A program of ring 0 starts with room for a return address on its stack. -/
theorem top_forProcess_mod {region : Nat} (aligned : region % 16 = 0) (pid : Nat) :
    ((forProcess region pid).top - 8) % 16 = 8 := by
  simp only [top, forProcess, baseFor, stride, defaultSize]
  omega

end KernelStack

namespace Trapframe

/-- The registers before the first instruction of a program. -/
def atEntry (entry : Nat) (userland : Bool) (stackPointer : Nat) : Trapframe where
  rip := UInt64.ofNat entry
  cs := if userland then 0x23 else 0x08
  ds := if userland then 0x1b else 0x10
  ss := if userland then 0x1b else 0x10
  rflags := 0x202
  rsp := UInt64.ofNat stackPointer

@[simp] theorem fromUser_atEntry (entry : Nat) (userland : Bool) (stackPointer : Nat) :
    (atEntry entry userland stackPointer).fromUser = userland := by
  have selector : (atEntry entry userland stackPointer).cs = if userland then 0x23 else 0x08 := rfl
  rw [fromUser_eq, selector]
  cases userland <;> decide

end Trapframe

namespace ProcessTable

theorem initialFrame_eq (q : Process) (top : Nat) :
    initialFrame q top = .atEntry q.entry q.userland (if q.userland then top else top - 8) := by
  rw [initialFrame, Trapframe.atEntry]
  cases q.userland <;> rfl

theorem prepareForRun_of_preparable {t : ProcessTable} {h : ProcessHandle} {q : Process} {top : Nat}
    (live : t.get h = .ok q) (can : Preparable q top) :
    t.prepareForRun h = (.ok (initialPlace q), t.readied h.slot q top) := by
  obtain ⟨stack, own⟩ := Option.isSome_iff_exists.mp can.kernelStack
  have may : ¬ (q.state = .running ∨ q.state = .exited) :=
    not_or.mpr ⟨can.not_running, can.not_exited⟩
  rw [prepareForRun, live]
  dsimp only
  rw [if_neg may]
  split
  · rename_i top' _ found
    obtain rfl := Option.some.inj (can.stackTop.symm.trans found)
    rfl
  · rename_i missing
    exact absurd can.stackTop (missing stack top own)

end ProcessTable

namespace TableState

open ProcessTable

variable {π : Type} [Platform π] {p : π} {s u : TableState π} {history : List (Event π)}
  {h : ProcessHandle} {q : Process} {place : FramePlace} {e : ProcessError}

/-- The process starts over from the frame at a place, and nothing else changes. -/
structure StartsOver (s : TableState π) (h : ProcessHandle) (q : Process) (place : FramePlace)
    (frame : Trapframe) (u : TableState π) : Prop where
  ready : u.table.get h = .ok (q.settle .ready (some place))
  frame : u.table.frames place = frame
  slots : ∀ slot, slot ≠ h.slot → u.table.slots slot = s.table.slots slot
  frames : ∀ other, other ≠ place → u.table.frames other = s.table.frames other
  current : u.table.current = s.table.current
  nextPid : u.table.nextPid = s.table.nextPid
  machine : u.machine = s.machine

theorem perform_prepare (s : TableState π) (h : ProcessHandle) :
    s.perform (.prepare h) =
      (.prepared (s.table.prepareForRun h).1, { s with table := (s.table.prepareForRun h).2 }) := rfl

theorem startsOver_prepare (made : s.perform (.prepare h) = (.prepared (.ok place), u)) :
    ∃ q top, s.table.get h = .ok q ∧ Preparable q top ∧ place = initialPlace q ∧
      StartsOver s h q place (initialFrame q top) u := by
  rcases prepared : s.table.prepareForRun h with ⟨e | place', t⟩
  all_goals
    rw [perform_prepare, prepared] at made
    cases made
  obtain ⟨q, top, live, can, rfl, rfl⟩ := prepareForRun_ok prepared
  refine ⟨q, top, live, can, rfl, get_readied live top, ?_, ?_, ?_, rfl, rfl, rfl⟩
  · exact frames_setFrame_self _ _ _
  · intro slot other
    exact slots_setSlot_other _ _ other
  · intro other away
    exact frames_setFrame_other _ _ away

theorem prepare_refused (made : s.perform (.prepare h) = (.prepared (.error e), u)) : u = s := by
  rcases prepared : s.table.prepareForRun h with ⟨e' | place, t⟩
  all_goals
    rw [perform_prepare, prepared] at made
    cases made
  rw [(prepareForRun_error prepared).1]

section Reachable

variable [FixedStacks π]

theorem stackTop_run (run : Run (start p) history s) (live : s.table.get h = .ok q)
    (user : h.slot ≠ kernelSlot) :
    q.stackTop = some (if q.userland then UserStack.top h.slot else
      (KernelStack.forProcess (stackRegion p) q.pid).top) := by
  obtain ⟨hq, -⟩ := get_eq_ok.mp live
  rw [Process.stackTop, Reachable.userStackTop_eq ⟨history, run⟩ hq, kernelStack_run run hq user]
  cases q.userland <;> rfl

/-- Whether a process can be made ready depends on its state alone, unless it is the kernel's own. -/
theorem prepared_iff (run : Run (start p) history s) :
    (∃ place, (s.perform (.prepare h)).1 = .prepared (.ok place)) ↔
      ∃ q, s.table.get h = .ok q ∧
        (q.state = .ready ∨ q.state = .stopped ∨ q.state = .waiting) ∧ h.slot ≠ kernelSlot := by
  constructor
  · rintro ⟨place, answer⟩
    obtain ⟨q, top, live, can, -⟩ := startsOver_prepare (Prod.ext answer rfl)
    obtain ⟨hq, -⟩ := get_eq_ok.mp live
    refine ⟨q, live, ?_, ?_⟩
    · have idle := can.not_running
      have alive := can.not_exited
      cases state : q.state <;> simp_all
    · intro own
      have stack := can.kernelStack
      rw [(Reachable.coherent ⟨history, run⟩).kernelStack_of_kernelSlot hq own] at stack
      cases stack
  · rintro ⟨q, live, state, user⟩
    have can : Preparable q _ :=
      { not_running := by rcases state with state | state | state <;> simp [state]
        not_exited := by rcases state with state | state | state <;> simp [state]
        kernelStack := by rw [kernelStack_run run (get_eq_ok.mp live).1 user]; rfl
        stackTop := stackTop_run run live user }
    exact ⟨initialPlace q, by rw [perform_prepare, prepareForRun_of_preparable live can]⟩

/-- In every state that a run reaches, a process can be made ready exactly if its handle is good, it
is ready, stopped or waiting, and it is not the kernel's own. Then it is ready to start from the entry
point that it was added with, in its ring and with cleared registers, on the stack of its slot or on
its stack in the kernel. The frame for this takes the highest bytes of the latter, which has no byte
in common with the stacks of others. Nothing else changes, and nothing at all if it fails. -/
theorem prepared_process_starts (aligned : stackRegion p % 16 = 0) (run : Run (start p) history s)
    (h : ProcessHandle) :
    ((∃ place, (s.perform (.prepare h)).1 = .prepared (.ok place)) ↔
      ∃ q, s.table.get h = .ok q ∧
        (q.state = .ready ∨ q.state = .stopped ∨ q.state = .waiting) ∧ h.slot ≠ kernelSlot) ∧
    (∀ place u, s.perform (.prepare h) = (.prepared (.ok place), u) →
      ∃ q stack, s.table.get h = .ok q ∧ (∃ e ∈ history, e.Adds h.slot q) ∧
        q.kernelStack = some stack ∧ place = .onStack q.pid Trapframe.size ∧
        (∃ a, place.address? (stackRegion p) = some a ∧ stack.HoldsFrame a) ∧
        (∀ slot r other, slot ≠ h.slot → s.table.slots slot = some r →
          r.kernelStack = some other → stack.Disjoint other) ∧
        (stack.top - 8) % 16 = 8 ∧
        StartsOver s h q place (.atEntry q.entry q.userland
          (if q.userland then UserStack.top h.slot else stack.top - 8)) u ∧
        (u.table.frames place).fromUser = q.userland) ∧
    ∀ e u, s.perform (.prepare h) = (.prepared (.error e), u) → u = s := by
  refine ⟨prepared_iff run, ?_, fun e u => prepare_refused⟩
  intro place u made
  obtain ⟨q, top, live, can, rfl, restarts⟩ := startsOver_prepare made
  obtain ⟨-, -, -, user⟩ := (prepared_iff run).mp ⟨_, congrArg Prod.fst made⟩
  obtain ⟨hq, -⟩ := get_eq_ok.mp live
  have own := kernelStack_run run hq user
  have coherent : Coherent s.table := Reachable.coherent ⟨history, run⟩
  have frame : initialFrame q top = .atEntry q.entry q.userland (if q.userland then
      UserStack.top h.slot else (KernelStack.forProcess (stackRegion p) q.pid).top - 8) := by
    have tops := can.stackTop.symm.trans (stackTop_run run live user)
    rw [initialFrame_eq, Option.some.inj tops]
    cases q.userland <;> rfl
  rw [frame] at restarts
  refine ⟨q, _, live, adds_run run hq user, own, rfl, ⟨_, rfl, ?_⟩, ?_, ?_, restarts, ?_⟩
  · exact KernelStack.holdsFrame_forProcess _ _
  · intro slot r other away hr theirs
    have apart : q.pid ≠ r.pid := fun same => away (coherent.pid_inj hq hr same).symm
    have userSlot : slot ≠ kernelSlot := by
      intro kernel
      rw [coherent.kernelStack_of_kernelSlot hr kernel] at theirs
      cases theirs
    rw [kernelStack_run run hr userSlot] at theirs
    obtain rfl := Option.some.inj theirs
    exact KernelStack.disjoint_forProcess _ apart
  · exact KernelStack.top_forProcess_mod aligned _
  · rw [restarts.frame, Trapframe.fromUser_atEntry]

end Reachable

/-- A program of ring 3 and one of ring 0 are added. -/
def oneInEachRing : List Operation := [.create "init" 0x400000 true, .create "idle" 0x500000 false]

theorem prepared_process_starts_idle :
    stackRegion flatStart.machine % 16 = 0 ∧
      Run flatStart (flatStart.record oneInEachRing) (flatStart.after oneInEachRing) ∧
      ∃ q stack u, q.kernelStack = some stack ∧ (stack.top - 8) % 16 = 8 ∧
        StartsOver (flatStart.after oneInEachRing) ⟨⟨2, by decide⟩, 3⟩ q (.onStack 3 184)
          (.atEntry 0x500000 false (stack.top - 8)) u := by
  have aligned : stackRegion flatStart.machine % 16 = 0 := by decide
  have run := run_record flatStart oneInEachRing (by decide)
  have live : ∃ q, (flatStart.after oneInEachRing).table.get ⟨⟨2, by decide⟩, 3⟩ = .ok q ∧
      q.state = .ready ∧ q.entry = 0x500000 ∧ q.userland = false := ⟨_, rfl, rfl, rfl, rfl⟩
  obtain ⟨q, found, ready, entry, ring⟩ := live
  obtain ⟨answers, starts, -⟩ := prepared_process_starts aligned run ⟨⟨2, by decide⟩, 3⟩
  obtain ⟨place, answer⟩ := answers.mpr ⟨q, found, .inl ready, by decide⟩
  obtain ⟨r, stack, live, -, own, rfl, -, -, room, restarts, -⟩ := starts place _ (Prod.ext answer rfl)
  obtain rfl := Except.ok.inj (found.symm.trans live)
  rw [entry, ring, (get_eq_ok.mp live).2] at restarts
  exact ⟨aligned, run, q, stack, _, own, room, restarts⟩

end TableState
end KernelCore
