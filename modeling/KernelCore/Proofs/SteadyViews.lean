import KernelCore.RoundRobin

/-!
# Steady views

A view of a machine is steady if no call for frames, mappings, memory or notices changes it. Then
nothing that is built from these calls changes it: neither rollback nor mapping, filling a segment,
loading an image or adding a process. The calls left out are those that move the processor on, among
them `activate` and `setKernelStack`; a view is steady throughout if these do not change it either,
and then nothing short of an exception does.
-/
namespace KernelCore

variable {π : Type} [Platform π]

/-- The calls by which pages are mapped to fresh frames leave the view alone. -/
structure SteadyMapping {α : Type} (view : π → α) : Prop where
  view_allocateFrame (p : π) : view (allocateFrame p).2 = view p
  view_releaseFrame (f : Frame) (p : π) : view (releaseFrame f p).2 = view p
  view_mapPage (space : AddressSpace) (page : Page) (f : Frame) (user : Bool) (p : π) :
    view (mapPage space page f user p).2 = view p
  view_unmapPage (space : AddressSpace) (page : Page) (p : π) :
    view (unmapPage space page p).2 = view p
  view_note (n : Notice) (p : π) : view (note n p) = view p

/-- The calls by which memory is filled leave the view alone. -/
structure SteadyFilling {α : Type} (view : π → α) : Prop where
  view_zeroRange (address length : Nat) (p : π) : view (zeroRange address length p).2 = view p
  view_copyIn (address : Nat) (bytes : Array UInt8) (p : π) :
    view (copyIn address bytes p).2 = view p
  view_note (n : Notice) (p : π) : view (note n p) = view p

/-- The calls by which the processor is passed on leave the view alone. -/
structure SteadySwitching {α : Type} (view : π → α) : Prop where
  view_activate (space : AddressSpace) (p : π) : view (activate space p) = view p
  view_setKernelStack (top : Nat) (p : π) : view (setKernelStack top p) = view p
  view_note (n : Notice) (p : π) : view (note n p) = view p

/-- The calls for frames, mappings, memory and notices leave the view alone. -/
structure Steady {α : Type} (view : π → α) : Prop where
  view_allocateFrame (p : π) : view (allocateFrame p).2 = view p
  view_releaseFrame (f : Frame) (p : π) : view (releaseFrame f p).2 = view p
  view_createSpace (p : π) : view (createSpace p).2 = view p
  view_releaseSpace (space : AddressSpace) (p : π) : view (releaseSpace space p).2 = view p
  view_mapPage (space : AddressSpace) (page : Page) (f : Frame) (user : Bool) (p : π) :
    view (mapPage space page f user p).2 = view p
  view_unmapPage (space : AddressSpace) (page : Page) (p : π) :
    view (unmapPage space page p).2 = view p
  view_zeroRange (address length : Nat) (p : π) : view (zeroRange address length p).2 = view p
  view_copyIn (address : Nat) (bytes : Array UInt8) (p : π) :
    view (copyIn address bytes p).2 = view p
  view_note (n : Notice) (p : π) : view (note n p) = view p

namespace SteadyMapping

variable {α : Type} {view : π → α}

theorem view_noteDropped (h : SteadyMapping view) (dropped : Option Frame × π) :
    view (noteDropped dropped) = view dropped.2 := by
  rcases dropped with ⟨_ | f, p⟩
  · rfl
  · exact h.view_note _ p

theorem view_giveBack (h : SteadyMapping view) (f : Frame) (p : π) :
    view (giveBack f p) = view p :=
  (h.view_noteDropped _).trans (h.view_releaseFrame f p)

theorem view_unmapAndFree (h : SteadyMapping view) (space : AddressSpace) (pages : List Page)
    (p : π) : view (unmapAndFree space pages p) = view p := by
  induction pages generalizing p with
  | nil => rfl
  | cons page pages ih =>
    have hu := h.view_unmapPage space page p
    rw [unmapAndFree]
    rcases hp : unmapPage space page p with ⟨_ | f, q⟩
    · rw [hp] at hu
      exact (ih q).trans hu
    · rw [hp] at hu
      exact (ih _).trans ((h.view_giveBack f q).trans hu)

theorem view_mapFresh (h : SteadyMapping view) (space : AddressSpace) (page : Page) (user : Bool)
    (p : π) : view (mapFresh space page user p).2 = view p := by
  have ha := h.view_allocateFrame p
  rw [mapFresh]
  rcases hp : allocateFrame p with ⟨_ | f, q⟩
  · rw [hp] at ha
    exact ha
  · rw [hp] at ha
    have hm := h.view_mapPage space page f user q
    rcases hq : mapPage space page f user q with ⟨e | _, r⟩
    · rw [hq] at hm
      simp only [hq]
      exact (h.view_giveBack f r).trans (hm.trans ha)
    · rw [hq] at hm
      simp only [hq]
      exact hm.trans ha

theorem view_mapAllFresh (h : SteadyMapping view) (space : AddressSpace) (user : Bool)
    (keep : π → Page → Bool) (pages mapped : List Page) (p : π) :
    view (mapAllFresh space user keep pages mapped p).2 = view p := by
  induction pages generalizing mapped p with
  | nil => rfl
  | cons page pages ih =>
    have hf := h.view_mapFresh space page user p
    rw [mapAllFresh]
    split
    · exact ih mapped p
    · rcases hp : mapFresh space page user p with ⟨e | _, q⟩
      · rw [hp] at hf
        exact (h.view_unmapAndFree space mapped.reverse q).trans hf
      · rw [hp] at hf
        exact (ih (page :: mapped) q).trans hf

theorem view_mapUserStack (h : SteadyMapping view) (space : AddressSpace) (slot : Nat) (p : π) :
    view (UserStack.map space slot p).2 = view p := by
  have hm := h.view_mapAllFresh space true (fun p page => isMapped p space page)
    (UserStack.pages slot) [] p
  rw [UserStack.map]
  split <;> rename_i hp <;> rw [hp] at hm <;> exact hm

theorem view_mapStack (h : SteadyMapping view) (userland : Bool) (space : AddressSpace)
    (slot : Fin maxProcesses) (p : π) :
    view (ProcessTable.mapStack userland space slot p).2 = view p := by
  have hm := h.view_mapUserStack space slot p
  rw [ProcessTable.mapStack]
  split
  · split <;> rename_i hp <;> rw [hp] at hm <;> exact hm
  · rfl

end SteadyMapping

namespace SteadyFilling

variable {α : Type} {view : π → α}

theorem view_fillSegment (h : SteadyFilling view) (image : ExecutableImage) (s : Segment) (p : π) :
    view (image.fillSegment s p) = view p := by
  rw [ExecutableImage.fillSegment]
  refine (h.view_note _ _).trans ?_
  split
  · exact h.view_zeroRange s.start s.size p
  · exact (h.view_copyIn s.start _ _).trans (h.view_zeroRange s.start s.size p)

theorem view_fillSegments (h : SteadyFilling view) (image : ExecutableImage)
    (segments : List Segment) (p : π) :
    view (segments.foldl (fun p s => image.fillSegment s p) p) = view p := by
  induction segments generalizing p with
  | nil => rfl
  | cons s segments ih => exact (ih _).trans (h.view_fillSegment image s p)

end SteadyFilling

/-- Freeing the slots of processes that have ended is a matter of notices. -/
theorem ProcessTable.view_reap {α : Type} {view : π → α}
    (noted : ∀ (n : Notice) (p : π), view (note n p) = view p) (t : ProcessTable) (p : π) :
    view (t.reap p).2.2 = view p := by
  have notes (slots : List (Fin maxProcesses)) (text : Fin maxProcesses → Notice) (p : π) :
      view (slots.foldl (fun p s => note (text s) p) p) = view p := by
    induction slots generalizing p with
    | nil => rfl
    | cons s slots ih => exact (ih _).trans (noted (text s) p)
  exact notes _ _ p

namespace SteadySwitching

variable {α : Type} {view : π → α}

theorem view_reap (h : SteadySwitching view) (t : ProcessTable) (p : π) :
    view (t.reap p).2.2 = view p :=
  ProcessTable.view_reap h.view_note t p

theorem view_switchMachine (h : SteadySwitching view) (old new : Process) (p : π) :
    view (ProcessTable.switchMachine old new p) = view p := by
  have entered : view (if old.space = new.space then p else activate new.space p) = view p := by
    split
    · rfl
    · exact h.view_activate _ p
  rw [ProcessTable.switchMachine]
  refine (h.view_note _ _).trans ?_
  split
  · exact (h.view_setKernelStack _ _).trans entered
  · exact entered

theorem view_schedule (h : SteadySwitching view) (t : ProcessTable) (place : FramePlace) (p : π) :
    view (t.schedule place p).2.2 = view p := by
  rw [ProcessTable.schedule]
  split
  · rfl
  · split
    · rfl
    · split
      · split
        · rfl
        · exact h.view_switchMachine _ _ p
      · rfl

end SteadySwitching

namespace Steady

variable {α : Type} {view : π → α}

theorem mapping (h : Steady view) : SteadyMapping view where
  view_allocateFrame := h.view_allocateFrame
  view_releaseFrame := h.view_releaseFrame
  view_mapPage := h.view_mapPage
  view_unmapPage := h.view_unmapPage
  view_note := h.view_note

theorem filling (h : Steady view) : SteadyFilling view where
  view_zeroRange := h.view_zeroRange
  view_copyIn := h.view_copyIn
  view_note := h.view_note

theorem view_giveBackSpace (h : Steady view) (space : AddressSpace) (p : π) :
    view (giveBackSpace space p) = view p :=
  (h.mapping.view_noteDropped _).trans (h.view_releaseSpace space p)

theorem view_create (h : Steady view) (t : ProcessTable) (name : String) (entry : Nat)
    (userland : Bool) (p : π) : view (t.create name entry userland p).2.2 = view p := by
  rw [ProcessTable.create]
  split
  · rfl
  · rename_i slot _
    split
    · rfl
    · split
      · rfl
      · have hc := h.view_createSpace p
        split <;> rename_i hp <;> rw [hp] at hc
        · exact hc
        · rename_i space q
          have hs := h.mapping.view_mapStack userland space slot q
          split <;> rename_i hq <;> rw [hq] at hs
          · exact (h.view_giveBackSpace space _).trans (hs.trans hc)
          · exact (h.view_note _ _).trans (hs.trans hc)

theorem view_load (h : Steady view) (image : ExecutableImage) (space : AddressSpace) (user : Bool)
    (p : π) : view (image.load space user p).2 = view p := by
  rw [ExecutableImage.load]
  split
  · rfl
  · rfl
  · rename_i entry segments _
    have hm := h.mapping.view_mapAllFresh space user (fun _ _ => false)
      (ExecutableImage.freshPages [] segments) [] p
    dsimp only
    split <;> rename_i hp <;> rw [hp] at hm
    · exact hm
    · exact (h.filling.view_fillSegments image segments _).trans hm

theorem view_reap (h : Steady view) (t : ProcessTable) (p : π) : view (t.reap p).2.2 = view p :=
  ProcessTable.view_reap h.view_note t p

/-- A view that does not show which space is active stays the same while a load goes into another
space and, unless it is aborted, comes back. -/
theorem view_loadInto (h : Steady view)
    (moves : ∀ (space : AddressSpace) (p : π), view (activate space p) = view p)
    (image : ExecutableImage) (space : AddressSpace) (userland : Bool) (p : π) :
    view (ProcessTable.loadInto image space userland p).2 = view p := by
  have there : view (ProcessTable.enter space p) = view p := by
    rw [ProcessTable.enter]
    split
    · rfl
    · exact moves space p
  have back (q : π) (hq : view q = view p) :
      view (if activeSpace p = space then q else activate (activeSpace p) q) = view p := by
    split
    · exact hq
    · exact (moves _ q).trans hq
  have loaded := (h.view_load image space userland (ProcessTable.enter space p)).trans there
  rw [ProcessTable.loadInto]
  rcases hr : image.load space userland (ProcessTable.enter space p) with ⟨info | e | _, q⟩
  · rw [hr] at loaded
    exact back q loaded
  · rw [hr] at loaded
    exact back q loaded
  · rw [hr] at loaded
    exact loaded

/-- To load an image for a process, nothing is asked of the machine but the load and notices. -/
theorem view_loadAndRun_cases (h : Steady view) (t : ProcessTable) (handle : ProcessHandle)
    (image : ExecutableImage) (p : π) :
    view (t.loadAndRun handle image p).2.2 = view p ∨
      ∃ space userland,
        view (t.loadAndRun handle image p).2.2 =
          view (ProcessTable.loadInto image space userland p).2 ∧
        ((ProcessTable.loadInto image space userland p).1 = .aborted →
          (t.loadAndRun handle image p).1 = .aborted) := by
  rw [ProcessTable.loadAndRun]
  split
  · exact .inl rfl
  · rename_i q _
    split
    · exact .inl rfl
    · refine .inr ⟨q.space, q.userland, ?_⟩
      rcases ProcessTable.loadInto image q.space q.userland p with ⟨info | e | _, r⟩
      · dsimp only
        split
        · exact ⟨rfl, nofun⟩
        · exact ⟨h.view_note _ _, nofun⟩
      · exact ⟨h.view_note _ _, nofun⟩
      · exact ⟨rfl, fun _ => rfl⟩

end Steady

/-- No call leaves a trace in the view but those that are made for an exception. -/
structure SteadyThroughout {α : Type} (view : π → α) : Prop extends Steady view where
  view_activate (space : AddressSpace) (p : π) : view (activate space p) = view p
  view_setKernelStack (top : Nat) (p : π) : view (setKernelStack top p) = view p
  view_endOfInterrupt (line : Nat) (p : π) : view (endOfInterrupt line p) = view p
  view_setMemory (m : ByteMemory) (p : π) : view (setMemory m p) = view p

namespace SteadyThroughout

variable {α : Type} {view : π → α}

theorem view_loadAndRun (h : SteadyThroughout view) (t : ProcessTable) (handle : ProcessHandle)
    (image : ExecutableImage) (p : π) : view (t.loadAndRun handle image p).2.2 = view p := by
  obtain same | ⟨space, userland, same, -⟩ := h.view_loadAndRun_cases t handle image p
  · exact same
  · exact same.trans (h.view_loadInto h.view_activate image space userland p)

theorem switching (h : SteadyThroughout view) : SteadySwitching view where
  view_activate := h.view_activate
  view_setKernelStack := h.view_setKernelStack
  view_note := h.view_note

theorem view_schedule (h : SteadyThroughout view) (t : ProcessTable) (place : FramePlace) (p : π) :
    view (t.schedule place p).2.2 = view p :=
  h.switching.view_schedule t place p

end SteadyThroughout
end KernelCore
