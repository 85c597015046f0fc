import KernelCore.FlatMachine
import KernelCore.PagingMachine
import KernelCore.Proofs.SteadyViews
import KernelCore.Trace

/-!
# Lawful platforms

What the kernel relies on when it switches between address spaces: a space that the machine has
handed out becomes the active one when it is activated, and nothing else changes which space is
active. The flat machine and the paging machine obey this. Neither watching a machine breaks it nor
failures of its calls at any moments. A watched machine also shows on which stack traps from ring 3
arrive.
-/
namespace KernelCore

variable {π : Type} [Platform π]

/-- The machine has handed the space out, as the active one or as a new one. -/
def Issued (π : Type) [Platform π] (space : AddressSpace) : Prop :=
  ∃ p : π, activeSpace p = space ∨ (createSpace p).1 = .ok space

theorem issued_activeSpace (p : π) : Issued π (activeSpace p) := ⟨p, .inl rfl⟩

/-- Which space is active is up to `activate` alone. -/
class LawfulPlatform (π : Type) [Platform π] : Prop where
  activeSpace_activate {space : AddressSpace} (h : Issued π space) (p : π) :
    activeSpace (activate space p) = space
  activeSpace_setKernelStack (top : Nat) (p : π) :
    activeSpace (setKernelStack top p) = activeSpace p
  steady_activeSpace : Steady (π := π) activeSpace

namespace FlatMachine

theorem active_storePages (a length : Nat) (content : Nat → UInt8) (pages : List Page)
    (m : FlatMachine) : (storePages a length content pages m).2.active = m.active := by
  induction pages generalizing m with
  | nil => rfl
  | cons page pages ih =>
    rw [storePages]
    split
    · rfl
    · exact ih _

theorem active_takeFrame (m : FlatMachine) : m.takeFrame.2.active = m.active := by
  rw [takeFrame]
  split <;> rfl

theorem active_newSpace (m : FlatMachine) : m.newSpace.2.active = m.active := by
  rw [newSpace]
  split
  · rfl
  · split <;> rfl

theorem active_countFault (m : FlatMachine) : m.countFault.2.active = m.active := by
  rw [countFault]
  split <;> rfl

theorem active_addMapping (space : AddressSpace) (page : Page) (f : Frame) (user : Bool)
    (m : FlatMachine) : (addMapping space page f user m).2.active = m.active := by
  have hc := m.active_countFault
  rw [addMapping]
  split <;> rename_i hm <;> rw [hm] at hc
  · exact hc
  · split <;> exact hc

instance : LawfulPlatform FlatMachine where
  activeSpace_activate _ _ := rfl
  activeSpace_setKernelStack _ _ := rfl
  steady_activeSpace :=
    { view_allocateFrame := active_takeFrame
      view_releaseFrame := fun _ _ => rfl
      view_createSpace := active_newSpace
      view_releaseSpace := fun _ _ => rfl
      view_mapPage := active_addMapping
      view_unmapPage := fun _ _ _ => rfl
      view_zeroRange := fun _ _ _ => active_storePages _ _ _ _ _
      view_copyIn := fun _ _ _ => active_storePages _ _ _ _ _
      view_note := fun _ _ => rfl }

end FlatMachine

namespace PagingMachine

theorem root_newSpace (m : PagingMachine) : m.newSpace.2.root = m.root := by
  rw [newSpace, takeFrame]
  rcases m.reserve.allocate with ⟨_ | f, reserve⟩ <;> rfl

theorem root_dropSpace (space : AddressSpace) (m : PagingMachine) :
    (dropSpace space m).2.root = m.root := by
  rw [dropSpace]
  split <;> rfl

/-- Every space that is handed out is that of a root table. -/
theorem spaceOf_of_issued {space : AddressSpace} (h : Issued PagingMachine space) :
    ∃ root, space = spaceOf root := by
  obtain ⟨m, h | h⟩ := h
  · exact ⟨m.root, h.symm⟩
  · change m.newSpace.1 = _ at h
    rw [newSpace, takeFrame] at h
    rcases hr : m.reserve.allocate with ⟨_ | f, reserve⟩
    · rw [hr] at h
      cases h
    · rw [hr] at h
      exact ⟨f, (Except.ok.inj h).symm⟩

@[simp] theorem rootOf_spaceOf (root : Frame) : rootOf (spaceOf root) = root :=
  Frame.containing_start root

instance : LawfulPlatform PagingMachine where
  activeSpace_activate h m := by
    obtain ⟨root, rfl⟩ := spaceOf_of_issued h
    exact congrArg spaceOf (rootOf_spaceOf root)
  activeSpace_setKernelStack _ _ := rfl
  steady_activeSpace :=
    { view_allocateFrame := fun _ => rfl
      view_releaseFrame := fun _ _ => rfl
      view_createSpace := fun m => congrArg spaceOf m.root_newSpace
      view_releaseSpace := fun space m => congrArg spaceOf (root_dropSpace space m)
      view_mapPage := fun _ _ _ _ _ => rfl
      view_unmapPage := fun _ _ _ => rfl
      view_zeroRange := fun _ _ _ => rfl
      view_copyIn := fun _ _ _ => rfl
      view_note := fun _ _ => rfl }

end PagingMachine

/-- A machine whose calls for frames, spaces and mappings fail at given moments: `fault n` is the
error of call number `n` of them, if that one fails. -/
structure Faulty (π : Type) where
  machine : π
  fault : Nat → Option MapError
  /-- Number of these calls so far. -/
  count : Nat := 0

namespace Faulty

/-- Makes a call that may fail. -/
def attempt {α : Type} (m : Faulty π) (failed : MapError → α) (call : π → α × π) : α × Faulty π :=
  match m.fault m.count with
  | some e => (failed e, { m with count := m.count + 1 })
  | none => ((call m.machine).1, { m with machine := (call m.machine).2, count := m.count + 1 })

/-- Makes a call that cannot fail. -/
def delegate {α : Type} (m : Faulty π) (call : π → α × π) : α × Faulty π :=
  ((call m.machine).1, { m with machine := (call m.machine).2 })

instance : Platform (Faulty π) where
  allocateFrame m := m.attempt (fun _ => none) KernelCore.allocateFrame
  releaseFrame f m := m.delegate (KernelCore.releaseFrame f)
  activeSpace m := KernelCore.activeSpace m.machine
  activate space m := { m with machine := KernelCore.activate space m.machine }
  createSpace m := m.attempt .error KernelCore.createSpace
  releaseSpace space m := m.delegate (KernelCore.releaseSpace space)
  isMapped m space page := KernelCore.isMapped m.machine space page
  mapPage space page frame user m := m.attempt .error (KernelCore.mapPage space page frame user)
  unmapPage space page m := m.delegate (KernelCore.unmapPage space page)
  zeroRange a length m := m.delegate (KernelCore.zeroRange a length)
  copyIn a bytes m := m.delegate (KernelCore.copyIn a bytes)
  hasStackRoom m := KernelCore.hasStackRoom m.machine
  stackRegion m := KernelCore.stackRegion m.machine
  endOfInterrupt line m := { m with machine := KernelCore.endOfInterrupt line m.machine }
  setKernelStack top m := { m with machine := KernelCore.setKernelStack top m.machine }
  readFaultAddress m := m.delegate KernelCore.readFaultAddress
  dump report m := { m with machine := KernelCore.dump report m.machine }
  halt m := { m with machine := KernelCore.halt m.machine }
  memory m := KernelCore.memory m.machine
  setMemory bytes m := { m with machine := KernelCore.setMemory bytes m.machine }
  note n m := { m with machine := KernelCore.note n m.machine }

omit [Platform π] in
theorem view_attempt {α β : Type} {view : π → β} {call : π → α × π}
    (h : ∀ p, view (call p).2 = view p) (failed : MapError → α) (m : Faulty π) :
    view (m.attempt failed call).2.machine = view m.machine := by
  rw [attempt]
  split
  · rfl
  · exact h m.machine

theorem issued_machine {space : AddressSpace} (h : Issued (Faulty π) space) : Issued π space := by
  obtain ⟨m, h | h⟩ := h
  · exact ⟨m.machine, .inl h⟩
  · refine ⟨m.machine, .inr ?_⟩
    change (m.attempt .error KernelCore.createSpace).1 = _ at h
    rw [attempt] at h
    split at h
    · cases h
    · exact h

instance [LawfulPlatform π] : LawfulPlatform (Faulty π) where
  activeSpace_activate h m := LawfulPlatform.activeSpace_activate (issued_machine h) m.machine
  activeSpace_setKernelStack top m := LawfulPlatform.activeSpace_setKernelStack top m.machine
  steady_activeSpace :=
    have h : Steady (π := π) activeSpace := LawfulPlatform.steady_activeSpace
    { view_allocateFrame := view_attempt h.view_allocateFrame _
      view_releaseFrame := fun f m => h.view_releaseFrame f m.machine
      view_createSpace := view_attempt h.view_createSpace _
      view_releaseSpace := fun space m => h.view_releaseSpace space m.machine
      view_mapPage := fun space page f user => view_attempt (h.view_mapPage space page f user) _
      view_unmapPage := fun space page m => h.view_unmapPage space page m.machine
      view_zeroRange := fun a length m => h.view_zeroRange a length m.machine
      view_copyIn := fun a bytes m => h.view_copyIn a bytes m.machine
      view_note := fun n m => h.view_note n m.machine }

end Faulty

namespace Traced

theorem issued_machine {space : AddressSpace} (h : Issued (Traced π) space) : Issued π space := by
  obtain ⟨t, h | h⟩ := h
  · exact ⟨t.machine, .inl h⟩
  · exact ⟨t.machine, .inr h⟩

instance [LawfulPlatform π] : LawfulPlatform (Traced π) where
  activeSpace_activate h t := LawfulPlatform.activeSpace_activate (issued_machine h) t.machine
  activeSpace_setKernelStack top t := LawfulPlatform.activeSpace_setKernelStack top t.machine
  steady_activeSpace :=
    have h : Steady (π := π) activeSpace := LawfulPlatform.steady_activeSpace
    { view_allocateFrame := fun t => h.view_allocateFrame t.machine
      view_releaseFrame := fun f t => h.view_releaseFrame f t.machine
      view_createSpace := fun t => h.view_createSpace t.machine
      view_releaseSpace := fun space t => h.view_releaseSpace space t.machine
      view_mapPage := fun space page f user t => h.view_mapPage space page f user t.machine
      view_unmapPage := fun space page t => h.view_unmapPage space page t.machine
      view_zeroRange := fun a length t => h.view_zeroRange a length t.machine
      view_copyIn := fun a bytes t => h.view_copyIn a bytes t.machine
      view_note := fun n t => h.view_note n t.machine }

/-- The stack that a call sets for traps from ring 3. -/
def trapStackSet : Call → Option Nat
  | .setKernelStack top => some top
  | _ => none

/-- The stack for traps from ring 3 that was set last. -/
def lastTrapStack (t : Traced π) : Option Nat := t.latest.findSome? trapStackSet

omit [Platform π] in
theorem lastTrapStack_record (t : Traced π) {calls : List Call} (machine : π)
    (h : ∀ c ∈ calls, trapStackSet c = none) :
    (t.record calls machine).lastTrapStack = t.lastTrapStack := by
  have hn : calls.reverse.findSome? trapStackSet = none := by
    rw [List.findSome?_eq_none_iff]
    intro c hc
    exact h c (List.mem_reverse.mp hc)
  rw [lastTrapStack, record, List.findSome?_append, hn, Option.none_or, lastTrapStack]

omit [Platform π] in
theorem lastTrapStack_transfer (t : Traced π) (c : Call) (stop : Option Nat) (machine : π)
    (h : trapStackSet c = none) :
    (t.record (transfer c stop) machine).lastTrapStack = t.lastTrapStack := by
  apply lastTrapStack_record
  intro d hd
  cases stop with
  | none => exact List.mem_singleton.mp hd ▸ h
  | some a =>
    rcases List.mem_cons.mp hd with rfl | hd
    · exact h
    · exact List.mem_singleton.mp hd ▸ rfl

omit [Platform π] in
theorem lastTrapStack_single (t : Traced π) (c : Call) (machine : π) (h : trapStackSet c = none) :
    (t.record [c] machine).lastTrapStack = t.lastTrapStack :=
  t.lastTrapStack_record machine fun _ hd => List.mem_singleton.mp hd ▸ h

theorem lastTrapStack_activate (space : AddressSpace) (t : Traced π) :
    (activate space t).lastTrapStack = t.lastTrapStack := t.lastTrapStack_single _ _ rfl

theorem lastTrapStack_setKernelStack (top : Nat) (t : Traced π) :
    (setKernelStack top t).lastTrapStack = some top := rfl

theorem steady_lastTrapStack : Steady (π := Traced π) lastTrapStack where
  view_allocateFrame t := t.lastTrapStack_single _ _ rfl
  view_releaseFrame _ t := t.lastTrapStack_single _ _ rfl
  view_createSpace t := t.lastTrapStack_single _ _ rfl
  view_releaseSpace _ t := t.lastTrapStack_single _ _ rfl
  view_mapPage _ _ _ _ t := t.lastTrapStack_single _ _ rfl
  view_unmapPage _ _ t := t.lastTrapStack_single _ _ rfl
  view_zeroRange _ _ t := t.lastTrapStack_transfer _ _ _ rfl
  view_copyIn _ _ t := t.lastTrapStack_transfer _ _ _ rfl
  view_note _ t := t.lastTrapStack_single _ _ rfl

end Traced
end KernelCore
