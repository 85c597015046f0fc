import KernelCore.Proofs.HandleLifetimes
import KernelCore.Proofs.SingleReport

/-!
# Where processes come from

Every process but the kernel's own was added by a call of the run, and has kept since then what that
call gave it: its number, its entry point, its ring and its space, the top of the stack of its slot
if it runs in ring 3, and a stack of its own in the kernel. Nothing but its state and the place it
goes on from ever changes.
-/
namespace KernelCore

/-- The stacks that processes have in the kernel lie in one region, and only an exception could move
it. -/
class FixedStacks (π : Type) [Platform π] : Prop where
  steady_stackRegion : SteadyThroughout (π := π) stackRegion

namespace FlatMachine

theorem stackRegion_storePages (a length : Nat) (content : Nat → UInt8) (pages : List Page)
    (m : FlatMachine) : (storePages a length content pages m).2.stackRegion = m.stackRegion := by
  induction pages generalizing m with
  | nil => rfl
  | cons page pages ih =>
    rw [storePages]
    split
    · rfl
    · exact ih _

theorem stackRegion_takeFrame (m : FlatMachine) : m.takeFrame.2.stackRegion = m.stackRegion := by
  rw [takeFrame]
  split <;> rfl

theorem stackRegion_newSpace (m : FlatMachine) : m.newSpace.2.stackRegion = m.stackRegion := by
  rw [newSpace]
  split
  · rfl
  · split <;> rfl

theorem stackRegion_addMapping (space : AddressSpace) (page : Page) (f : Frame) (user : Bool)
    (m : FlatMachine) : (addMapping space page f user m).2.stackRegion = m.stackRegion := by
  have counted : m.countFault.2.stackRegion = m.stackRegion := by
    rw [countFault]
    split <;> rfl
  rw [addMapping]
  split <;> rename_i hm <;> rw [hm] at counted
  · exact counted
  · split <;> exact counted

instance : FixedStacks FlatMachine where
  steady_stackRegion :=
    { view_allocateFrame := stackRegion_takeFrame
      view_releaseFrame := fun _ _ => rfl
      view_createSpace := stackRegion_newSpace
      view_releaseSpace := fun _ _ => rfl
      view_mapPage := stackRegion_addMapping
      view_unmapPage := fun _ _ _ => rfl
      view_zeroRange := fun _ _ _ => stackRegion_storePages _ _ _ _ _
      view_copyIn := fun _ _ _ => stackRegion_storePages _ _ _ _ _
      view_note := fun _ _ => rfl
      view_activate := fun _ _ => rfl
      view_setKernelStack := fun _ _ => rfl
      view_endOfInterrupt := fun _ _ => rfl
      view_setMemory := fun _ _ => rfl }

end FlatMachine

variable {π : Type} [Platform π]

instance [FixedStacks π] : FixedStacks (Faulty π) where
  steady_stackRegion :=
    have h : SteadyThroughout (π := π) stackRegion := FixedStacks.steady_stackRegion
    { view_allocateFrame := Faulty.view_attempt h.view_allocateFrame _
      view_releaseFrame := fun f m => h.view_releaseFrame f m.machine
      view_createSpace := Faulty.view_attempt h.view_createSpace _
      view_releaseSpace := fun space m => h.view_releaseSpace space m.machine
      view_mapPage := fun space page f user => Faulty.view_attempt (h.view_mapPage space page f user) _
      view_unmapPage := fun space page m => h.view_unmapPage space page m.machine
      view_zeroRange := fun a length m => h.view_zeroRange a length m.machine
      view_copyIn := fun a bytes m => h.view_copyIn a bytes m.machine
      view_note := fun n m => h.view_note n m.machine
      view_activate := fun space m => h.view_activate space m.machine
      view_setKernelStack := fun top m => h.view_setKernelStack top m.machine
      view_endOfInterrupt := fun line m => h.view_endOfInterrupt line m.machine
      view_setMemory := fun bytes m => h.view_setMemory bytes m.machine }

instance [FixedStacks π] : FixedStacks (Traced π) where
  steady_stackRegion :=
    have h : SteadyThroughout (π := π) stackRegion := FixedStacks.steady_stackRegion
    { view_allocateFrame := fun t => h.view_allocateFrame t.machine
      view_releaseFrame := fun f t => h.view_releaseFrame f t.machine
      view_createSpace := fun t => h.view_createSpace t.machine
      view_releaseSpace := fun space t => h.view_releaseSpace space t.machine
      view_mapPage := fun space page f user t => h.view_mapPage space page f user t.machine
      view_unmapPage := fun space page t => h.view_unmapPage space page t.machine
      view_zeroRange := fun a length t => h.view_zeroRange a length t.machine
      view_copyIn := fun a bytes t => h.view_copyIn a bytes t.machine
      view_note := fun n t => h.view_note n t.machine
      view_activate := fun space t => h.view_activate space t.machine
      view_setKernelStack := fun top t => h.view_setKernelStack top t.machine
      view_endOfInterrupt := fun line t => h.view_endOfInterrupt line t.machine
      view_setMemory := fun bytes t => h.view_setMemory bytes t.machine }

namespace TableState

open ProcessTable

variable {p : π} {s u : TableState π} {op : Operation} {a : Answer} {history : List (Event π)}

/-- A call adds one process, which then is as `create` makes it, or none. -/
theorem Effect.descends_or_created (effect : Effect s op a u) :
    Descends s.table u.table ∨
      ∃ name entry userland slot space region, op = .create name entry userland ∧
        a = .created (.ok ⟨slot, s.table.nextPid⟩) ∧
        u.table = s.table.added slot (s.table.newcomer name entry userland space region
          (if userland then some (UserStack.top slot) else none)) := by
  rcases effect.issued_cases with ⟨-, same⟩ | ⟨h, issued, -⟩
  · rcases effect.descends_or_added with ⟨descends, -⟩ | ⟨slot, q, -, -, -, -, hu⟩
    · exact .inl descends
    · rw [hu] at same
      exact absurd same (Nat.succ_ne_self _)
  · cases effect with
    | created free number issued => exact .inr ⟨_, _, _, _, _, _, rfl, rfl, rfl⟩
    | _ => cases issued

/-- The event has added this process, apart from its state and the place that it goes on from. -/
def Event.Adds (e : Event π) (slot : Fin maxProcesses) (q : Process) : Prop :=
  ∃ name, e.operation = .create name q.entry q.userland ∧
    e.answer = .created (.ok ⟨slot, q.pid⟩) ∧
    Founds e.before name q.entry q.userland ⟨slot, q.pid⟩ q

theorem Event.Adds.settle {e : Event π} {slot : Fin maxProcesses} {q : Process}
    (h : e.Adds slot q) (state : ProcessState) (saved : Option FramePlace) :
    e.Adds slot (q.settle state saved) := by
  obtain ⟨name, operation, answer, founds⟩ := h
  exact ⟨name, operation, answer, founds.pid, founds.name, rfl, rfl, founds.space⟩

/-- Every process but the kernel's own was added by a call of the run. -/
theorem adds_run (run : Run (start p) history s) {slot : Fin maxProcesses} {q : Process}
    (hq : s.table.slots slot = some q) (user : slot ≠ kernelSlot) : ∃ e ∈ history, e.Adds slot q := by
  induction run generalizing q with
  | refl => exact absurd (eq_kernel_of_slots_new hq).1 user
  | @step history t op a u run last ih =>
    have effect := effect_of_coherent (run.coherent (coherent_new _)) last
    rcases effect.descends_or_created with descends |
      ⟨name, entry, userland, slot', space, region, rfl, rfl, hu⟩
    · obtain ⟨r, hr, hqr⟩ := descends hq
      obtain ⟨e, he, adds⟩ := ih hr
      refine ⟨e, List.mem_append_left _ he, ?_⟩
      rw [hqr]
      exact adds.settle _ _
    · have hr := hq
      rw [hu] at hr
      rcases slots_added_cases hr with ⟨rfl, rfl⟩ | ⟨-, hr⟩
      · obtain ⟨-, r, live, founds⟩ := founds_create last
        obtain rfl := Option.some.inj (hq.symm.trans (get_eq_ok.mp live).1)
        exact ⟨_, List.mem_append_right _ (List.mem_singleton.mpr rfl), name, rfl, rfl, founds⟩
      · obtain ⟨e, he, adds⟩ := ih hr
        exact ⟨e, List.mem_append_left _ he, adds⟩

/-- Exactly the processes of ring 3 have a stack in their space, that of their slot. -/
theorem Reachable.userStackTop_eq (reach : Reachable p s) {slot : Fin maxProcesses} {q : Process}
    (hq : s.table.slots slot = some q) :
    q.userStackTop = if q.userland then some (UserStack.top slot) else none := by
  obtain ⟨history, run⟩ := reach
  induction run generalizing q with
  | refl =>
    rw [(eq_kernel_of_slots_new hq).2]
    rfl
  | @step history t op a u run last ih =>
    have effect := effect_of_coherent (run.coherent (coherent_new _)) last
    rcases effect.descends_or_created with descends | ⟨_, _, _, _, _, _, -, -, hu⟩
    · obtain ⟨r, hr, hqr⟩ := descends hq
      have top := ih hr
      rw [hqr]
      exact top
    · rw [hu] at hq
      rcases slots_added_cases hq with ⟨rfl, rfl⟩ | ⟨-, hr⟩
      · rfl
      · exact ih hr

section Stacks

variable [FixedStacks π]

/-- The region of the stacks is where it was at the start. -/
theorem Run.stackRegion_eq (run : Run s history u) : stackRegion u.machine = stackRegion s.machine := by
  induction run with
  | refl => rfl
  | @step history t op a u run last ih =>
    have steady : SteadyThroughout (π := π) stackRegion := FixedStacks.steady_stackRegion
    have same := steady.view_perform t op
    rw [last.1] at same
    exact same.trans ih

theorem stackRegion_mapStack {userland : Bool} {space : AddressSpace} {slot : Fin maxProcesses}
    {q r : π} {top : Option Nat}
    (h : mapStack userland space slot (createSpace q).2 = (.ok top, r)) :
    stackRegion r = stackRegion q := by
  have steady : SteadyThroughout (π := π) stackRegion := FixedStacks.steady_stackRegion
  have mapped := steady.mapping.view_mapStack userland space slot (createSpace q).2
  rw [h] at mapped
  exact mapped.trans (steady.view_createSpace q)

/-- Every process but the kernel's own has the stack in the kernel that goes with its number. -/
theorem kernelStack_run (run : Run (start p) history s) {slot : Fin maxProcesses} {q : Process}
    (hq : s.table.slots slot = some q) (user : slot ≠ kernelSlot) :
    q.kernelStack = some (.forProcess (stackRegion p) q.pid) := by
  induction run generalizing q with
  | refl => exact absurd (eq_kernel_of_slots_new hq).1 user
  | @step history t op a u run last ih =>
    have effect := effect_of_coherent (run.coherent (coherent_new _)) last
    rcases effect.descends_or_created with descends | ⟨name, entry, userland, _, _, _, rfl, rfl, -⟩
    · obtain ⟨r, hr, hqr⟩ := descends hq
      have stack := ih hr
      rw [hqr]
      exact stack
    · obtain ⟨_, _, _, _, _, -, -, -, stacked, -, hu, -⟩ :=
        create_stages (create_of_perform last.1)
      rw [hu] at hq
      rcases slots_added_cases hq with ⟨-, rfl⟩ | ⟨-, hr⟩
      · have region := (stackRegion_mapStack stacked).trans run.stackRegion_eq
        exact congrArg (fun r => some (KernelStack.forProcess r t.table.nextPid)) region
      · exact ih hr

end Stacks

end TableState
end KernelCore
