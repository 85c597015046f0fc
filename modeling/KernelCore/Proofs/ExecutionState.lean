import KernelCore.Proofs.ProcessFates

/-!
# The state of execution

The process that the table calls current is the one that the machine runs: its space is active, and
traps from ring 3 arrive on its own stack in the kernel. A tick compares the spaces of the two
processes and not the space that is active, so it is right only because all other calls leave the
machine as they found it, an image that was loaded into another space included.
-/
namespace KernelCore

variable {π : Type} [Platform π]

namespace ProcessTable

/-- However a load goes on, it comes back to the space that was active before. -/
theorem activeSpace_loadInto [LawfulPlatform π] {image : ExecutableImage} {space : AddressSpace}
    {userland : Bool} {p : π} (h : (loadInto image space userland p).1 ≠ .aborted) :
    activeSpace (loadInto image space userland p).2 = activeSpace p := by
  have hl := LawfulPlatform.steady_activeSpace.view_load image space userland (enter space p)
  have back (q : π) (hq : activeSpace q = activeSpace (enter space p)) :
      activeSpace (if activeSpace p = space then q else activate (activeSpace p) q) =
        activeSpace p := by
    split
    · rename_i hs
      rw [hq, enter, if_pos hs]
    · exact LawfulPlatform.activeSpace_activate (issued_activeSpace p) q
  rw [loadInto] at h ⊢
  rcases hr : image.load space userland (enter space p) with ⟨info | e | _, q⟩
  · rw [hr] at hl
    exact back q hl
  · rw [hr] at hl
    exact back q hl
  · rw [hr] at h
    exact absurd rfl h

theorem lastTrapStack_loadInto (image : ExecutableImage) (space : AddressSpace) (userland : Bool)
    (p : Traced π) : (loadInto image space userland p).2.lastTrapStack = p.lastTrapStack :=
  Traced.steady_lastTrapStack.view_loadInto Traced.lastTrapStack_activate image space userland p

theorem view_loadAndRun {α : Type} {view : π → α} (h : Steady view) {t : ProcessTable}
    {handle : ProcessHandle} {image : ExecutableImage} {p : π}
    (inner : ∀ space userland, (loadInto image space userland p).1 ≠ .aborted →
      view (loadInto image space userland p).2 = view p)
    (answered : (t.loadAndRun handle image p).1 ≠ .aborted) :
    view (t.loadAndRun handle image p).2.2 = view p := by
  obtain same | ⟨space, userland, same, aborts⟩ := h.view_loadAndRun_cases t handle image p
  · exact same
  · exact same.trans (inner space userland fun aborted => answered (aborts aborted))

/-- The space of the process that takes over becomes the active one. -/
theorem activeSpace_switchMachine [LawfulPlatform π] {old new : Process} {p : π}
    (active : activeSpace p = old.space) (issued : Issued π new.space) :
    activeSpace (switchMachine old new p) = new.space := by
  have entered : activeSpace (if old.space = new.space then p else activate new.space p) =
      new.space := by
    split
    · rename_i hs
      exact active.trans hs
    · exact LawfulPlatform.activeSpace_activate issued p
  rw [switchMachine]
  refine (LawfulPlatform.steady_activeSpace.view_note _ _).trans ?_
  split
  · exact (LawfulPlatform.activeSpace_setKernelStack _ _).trans entered
  · exact entered

theorem lastTrapStack_switchMachine (old : Process) {new : Process} (p : Traced π) {top : Nat}
    (huser : new.userland = true) (htop : new.trapStackTop = some top) :
    (switchMachine old new p).lastTrapStack = some top := by
  rw [switchMachine]
  refine (Traced.steady_lastTrapStack.view_note _ _).trans ?_
  rw [huser, htop]
  exact Traced.lastTrapStack_setKernelStack top _

end ProcessTable

namespace TableState

open ProcessTable

/-- What only ticks and the loading of images could change of the machine stays the same under the
other calls. -/
theorem view_perform {α : Type} {view : π → α} (h : Steady view) {s : TableState π} {op : Operation}
    (inner : ∀ image space userland, (loadInto image space userland s.machine).1 ≠ .aborted →
      view (loadInto image space userland s.machine).2 = view s.machine)
    (answered : (s.perform op).1 ≠ .loaded .aborted)
    (hop : ∀ place registers, op ≠ .schedule place registers) :
    view (s.perform op).2.machine = view s.machine := by
  cases op with
  | create name entry userland => exact h.view_create s.table name entry userland s.machine
  | prepare handle => rfl
  | load handle image =>
    refine view_loadAndRun h (inner image) fun ha => answered ?_
    exact congrArg Answer.loaded ha
  | exit handle => rfl
  | reap => exact h.view_reap s.table s.machine
  | schedule place registers => exact absurd rfl (hop place registers)

/-- The machine is set up for the process: its space is active, and traps arrive on its stack if it
is one of ring 3. -/
structure Serves (machine : Traced π) (q : Process) : Prop where
  active : activeSpace machine = q.space
  trapStack : q.userland = true → machine.lastTrapStack = q.trapStackTop

/-- The machine is set up for the process that runs, and any process of the table may take over. -/
structure Attended (s : TableState (Traced π)) : Prop where
  issued : ∀ {slot q}, s.table.slots slot = some q → Issued (Traced π) q.space
  serves : ∀ {q}, s.table.slots s.table.current = some q → Serves s.machine q

theorem attended_start (p : Traced π) : Attended (start p) where
  issued h := (eq_kernel_of_slots_new h).2 ▸ issued_activeSpace p
  serves h := (eq_kernel_of_slots_new h).2 ▸ ⟨rfl, nofun⟩

variable {s u : TableState (Traced π)} {op : Operation} {a : Answer}

theorem Attended.issued_effect (h : Attended s) (effect : Effect s op a u)
    {slot : Fin maxProcesses} {q : Process} (hq : u.table.slots slot = some q) :
    Issued (Traced π) q.space := by
  rcases effect.descends_or_added with ⟨hd, -⟩ | ⟨free, new, -, issued, -, -, hu⟩
  · obtain ⟨r, hr, hqr⟩ := hd hq
    have hspace := h.issued hr
    rw [hqr]
    exact hspace
  · rw [hu] at hq
    rcases slots_added_cases hq with ⟨-, rfl⟩ | ⟨-, hq⟩
    · exact issued
    · exact h.issued hq

/-- A tick leaves the machine alone or sets it up for the process that it lets run. -/
theorem attended_tick [LawfulPlatform π] (coherent : Coherent s.table) (h : Attended s)
    {place : FramePlace} {registers : Trapframe}
    (effect : Effect s (.schedule place registers) a u) : Attended u := by
  refine ⟨h.issued_effect effect, ?_⟩
  intro q hq
  cases effect with
  | kept alone =>
    change (s.table.interrupted place registers).slots s.table.current = some q at hq
    rw [slots_interrupted, if_pos rfl] at hq
    obtain ⟨r, hr, rfl⟩ := Option.map_eq_some_iff.mp hq
    have hserves := h.serves hr
    exact ⟨hserves.active, hserves.trapStack⟩
  | @switched _ _ next old new resumed found other leaves enters saved =>
    change ((s.table.interrupted place registers).handOver next).slots next = some q at hq
    rw [slots_switched _ _ _ other, if_pos rfl, enters] at hq
    obtain rfl := Option.some.inj hq
    refine ⟨activeSpace_switchMachine (h.serves leaves).active (h.issued enters), fun huser => ?_⟩
    obtain ⟨stack, -, htop⟩ := coherent.trapStack_of_userland enters huser
    exact (lastTrapStack_switchMachine old s.machine huser htop).trans htop.symm

/-- Every call leaves the machine set up for the process that runs after it. -/
theorem attended_step [LawfulPlatform π] (coherent : Coherent s.table) (h : Attended s)
    (step : Step s op a u) : Attended u := by
  have effect := effect_of_coherent coherent step
  rcases op.tick_cases with ⟨place, registers, rfl⟩ | hop
  · exact attended_tick coherent h effect
  · -- Neither the process that runs nor what the machine shows of it changes between ticks.
    obtain ⟨hcur, hslot⟩ := effect.current_stays coherent.toControlled hop
    obtain ⟨hp, answered⟩ := step
    have ha : a = (s.perform op).1 := congrArg Prod.fst hp.symm
    have hu : u = (s.perform op).2 := congrArg Prod.snd hp.symm
    have hactive : activeSpace u.machine = activeSpace s.machine := by
      rw [hu]
      exact view_perform LawfulPlatform.steady_activeSpace (fun _ _ _ => activeSpace_loadInto)
        (ha ▸ answered) hop
    have htrap : u.machine.lastTrapStack = s.machine.lastTrapStack := by
      rw [hu]
      exact view_perform Traced.steady_lastTrapStack
        (fun image space userland _ => lastTrapStack_loadInto image space userland s.machine)
        (ha ▸ answered) hop
    refine ⟨h.issued_effect effect, ?_⟩
    intro q hq
    rw [hcur, hslot] at hq
    have hserves := h.serves hq
    constructor
    · rw [hactive]
      exact hserves.active
    · rw [htrap]
      exact hserves.trapStack

/-- What holds of the table and the machine whenever a process runs. -/
structure ExecutionState (s : TableState (Traced π)) : Prop where
  current_running : ∃ q, s.table.slots s.table.current = some q ∧ q.state = .running
  running_current : ∀ {slot q}, s.table.slots slot = some q → q.state = .running →
    slot = s.table.current
  active_space : ∀ {q}, s.table.slots s.table.current = some q → activeSpace s.machine = q.space
  /-- Traps of a process of ring 3 arrive on its own stack. -/
  trap_stack : ∀ {q}, s.table.slots s.table.current = some q → q.userland = true →
    ∃ stack, q.kernelStack = some stack ∧ s.machine.lastTrapStack = some stack.top
  saved_state : ∀ {slot q}, s.table.slots slot = some q → q.saved.isSome →
    q.state = .ready ∨ q.state = .running
  stack_owned : ∀ {slot q}, s.table.slots slot = some q → slot ≠ kernelSlot → q.kernelStack.isSome

/-- Every state that a run reaches is a state of execution. Any call of the machine may have failed
on the way, at any moment. -/
theorem executionState_of_run [LawfulPlatform π] {p : Traced π} {history : List (Event (Traced π))}
    (run : Run (start p) history s) : ExecutionState s := by
  have both : Coherent s.table ∧ Attended s := by
    refine run.invariant (fun v => Coherent v.table ∧ Attended v) ?_ ?_
    · exact ⟨coherent_new (activeSpace p), attended_start p⟩
    · intro e _ v hv step
      exact ⟨coherent_step hv.1 step, attended_step hv.1 hv.2 step⟩
  obtain ⟨coherent, attended⟩ := both
  constructor
  · exact coherent.current_running
  · exact coherent.running_current
  · exact fun hq => (attended.serves hq).active
  · intro q hq huser
    obtain ⟨stack, hstack, htop⟩ := coherent.trapStack_of_userland hq huser
    exact ⟨stack, hstack, ((attended.serves hq).trapStack huser).trans htop⟩
  · exact coherent.saved_state
  · exact coherent.stack_owned

/-- There is no frame for the stack of the first process that is created here. -/
def frameMissing : Traced (Faulty FlatMachine) where
  machine :=
    { machine := { separate := true }
      fault := fun n => if n = 1 then some .frameAllocationFailed else none }

def secondAttempt : List Operation :=
  [.create "init" 0x400000 true, .create "init" 0x400000 true, .prepare .first,
    .schedule (.outside 0) {}]

theorem executionState_secondAttempt :
    (∃ q, ((start frameMissing).after secondAttempt).table.slots ProcessHandle.first.slot = some q ∧
      q.userland = true ∧ q.state = .running) ∧
    Run (start frameMissing) ((start frameMissing).record secondAttempt)
      ((start frameMissing).after secondAttempt) ∧
    ExecutionState ((start frameMissing).after secondAttempt) := by
  have run := run_record (start frameMissing) secondAttempt (by decide)
  exact ⟨⟨_, rfl, rfl, rfl⟩, run, executionState_of_run run⟩

end TableState
end KernelCore
