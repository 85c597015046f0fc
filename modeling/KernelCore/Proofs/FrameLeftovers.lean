import KernelCore.Proofs.CallLedger

/-!
# What frames hold when they are handed out

An inspected machine remembers, for every frame that it hands out, the bytes that the frame holds at
that moment. Mapping a page to a fresh frame leaves these bytes in it: until something is stored in
the page, whoever may use it finds there what the last owner of the frame has left.
-/
namespace KernelCore

structure Inspected (π : Type) where
  machine : π
  /-- The frames that were handed out, each with its bytes at that moment, the last one first. -/
  handedOut : List (Frame × ByteMemory) := []

namespace Inspected

variable {π : Type} [Platform π]

/-- What the frame held when it was handed out last. -/
def leftover? (m : Inspected π) (f : Frame) : Option ByteMemory :=
  (m.handedOut.find? fun e => e.1 = f).map Prod.snd

/-- Makes a call that hands out no frame. -/
def delegate {α : Type} (m : Inspected π) (call : π → α × π) : α × Inspected π :=
  ((call m.machine).1, { m with machine := (call m.machine).2 })

variable [LawfulMemory π]

def handOut (m : Inspected π) : Option Frame × Inspected π :=
  let (f, p) := KernelCore.allocateFrame m.machine
  (f, ⟨p, (f.map fun f => (f, (mappedMemory p).contents f)).toList ++ m.handedOut⟩)

instance : Platform (Inspected π) where
  allocateFrame := handOut
  releaseFrame f m := m.delegate (KernelCore.releaseFrame f)
  activeSpace m := KernelCore.activeSpace m.machine
  activate space m := { m with machine := KernelCore.activate space m.machine }
  createSpace m := m.delegate KernelCore.createSpace
  releaseSpace space m := m.delegate (KernelCore.releaseSpace space)
  isMapped m space page := KernelCore.isMapped m.machine space page
  mapPage space page frame user m := m.delegate (KernelCore.mapPage space page frame user)
  unmapPage space page m := m.delegate (KernelCore.unmapPage space page)
  zeroRange a length m := m.delegate (KernelCore.zeroRange a length)
  copyIn a bytes m := m.delegate (KernelCore.copyIn a bytes)
  hasStackRoom m := KernelCore.hasStackRoom m.machine
  stackRegion m := KernelCore.stackRegion m.machine
  endOfInterrupt line m := { m with machine := KernelCore.endOfInterrupt line m.machine }
  setKernelStack top m := { m with machine := KernelCore.setKernelStack top m.machine }
  readFaultAddress m := m.delegate KernelCore.readFaultAddress
  dump report m := { m with machine := KernelCore.dump report m.machine }
  halt m := { m with machine := KernelCore.halt m.machine }
  memory m := KernelCore.memory m.machine
  setMemory bytes m := { m with machine := KernelCore.setMemory bytes m.machine }
  note n m := { m with machine := KernelCore.note n m.machine }

theorem issued_machine {space : AddressSpace} (h : Issued (Inspected π) space) : Issued π space := by
  obtain ⟨m, h | h⟩ := h
  · exact ⟨m.machine, .inl h⟩
  · exact ⟨m.machine, .inr h⟩

instance [LawfulPlatform π] : LawfulPlatform (Inspected π) where
  activeSpace_activate h m := LawfulPlatform.activeSpace_activate (issued_machine h) m.machine
  activeSpace_setKernelStack top m := LawfulPlatform.activeSpace_setKernelStack top m.machine
  steady_activeSpace :=
    have h : Steady (π := π) activeSpace := LawfulPlatform.steady_activeSpace
    { view_allocateFrame := fun m => h.view_allocateFrame m.machine
      view_releaseFrame := fun f m => h.view_releaseFrame f m.machine
      view_createSpace := fun m => h.view_createSpace m.machine
      view_releaseSpace := fun space m => h.view_releaseSpace space m.machine
      view_mapPage := fun space page f user m => h.view_mapPage space page f user m.machine
      view_unmapPage := fun space page m => h.view_unmapPage space page m.machine
      view_zeroRange := fun a length m => h.view_zeroRange a length m.machine
      view_copyIn := fun a bytes m => h.view_copyIn a bytes m.machine
      view_note := fun n m => h.view_note n m.machine }

/-- Inspecting a call does not change what it answers and does. -/
theorem machine_mapPage {space : AddressSpace} {page : Page} {f : Frame} {user : Bool}
    {m m' : Inspected π} {r : Except MapError Unit} (h : mapPage space page f user m = (r, m')) :
    mapPage space page f user m.machine = (r, m'.machine) := by
  have answer : (mapPage space page f user m).1 = r := congrArg Prod.fst h
  have machine : (mapPage space page f user m).2.machine = m'.machine :=
    congrArg (fun c => c.2.machine) h
  exact Prod.ext answer machine

instance : LawfulMemory (Inspected π) where
  mappedMemory m := mappedMemory m.machine
  isMapped_eq m := LawfulMemory.isMapped_eq m.machine
  allocateFrame m := LawfulMemory.allocateFrame m.machine
  releaseFrame f m := LawfulMemory.releaseFrame f m.machine
  activate space m := LawfulMemory.activate space m.machine
  note n m := LawfulMemory.note n m.machine
  mapPage_ok h := LawfulMemory.mapPage_ok (machine_mapPage h)
  mapPage_error h := LawfulMemory.mapPage_error (machine_mapPage h)
  unmapPage space page m := LawfulMemory.unmapPage space page m.machine
  backing_zeroRange a length m := LawfulMemory.backing_zeroRange a length m.machine
  backing_copyIn a bytes m := LawfulMemory.backing_copyIn a bytes m.machine
  zeroRange h := LawfulMemory.zeroRange (π := π) h
  copyIn h := LawfulMemory.copyIn (π := π) h

theorem leftover?_handOut_self {m : Inspected π} {f : Frame} (h : m.handOut.1 = some f) :
    m.handOut.2.leftover? f = some ((mappedMemory m.handOut.2).contents f) := by
  change (KernelCore.allocateFrame m.machine).1 = some f at h
  simp [leftover?, handOut, h]
  rfl

theorem leftover?_handOut_other {m : Inspected π} {f : Frame} (h : m.handOut.1 ≠ some f) :
    m.handOut.2.leftover? f = m.leftover? f := by
  change (KernelCore.allocateFrame m.machine).1 ≠ some f at h
  rw [leftover?, handOut]
  cases hf : (KernelCore.allocateFrame m.machine).1 with
  | none => simp [hf, leftover?]
  | some g =>
    have hne : g ≠ f := fun e => h (e ▸ hf)
    simp [hf, leftover?, hne]

end Inspected

variable {π : Type} [Platform π] [LawfulMemory π] {t u v : Traced (Inspected π)}
  {made more : List Call}

/-- The frame still holds what it held when it was handed out. -/
def Pristine (t : Traced (Inspected π)) (f : Frame) : Prop :=
  t.machine.leftover? f = some ((mappedMemory t).contents f)

/-- These calls were made, and all frames that they have taken are pristine. -/
structure HandsOut (t u : Traced (Inspected π)) (made : List Call) : Prop
    extends Quiet t u made where
  pristine : ∀ f ∈ taken made, Pristine u f
  leftover : ∀ f, f ∉ taken made → u.machine.leftover? f = t.machine.leftover? f

namespace HandsOut

theorem refl (t : Traced (Inspected π)) : HandsOut t t [] := ⟨.refl t, nofun, fun _ _ => rfl⟩

theorem trans (h : HandsOut t u made) (h' : HandsOut u v more) :
    HandsOut t v (made ++ more) where
  toQuiet := h.toQuiet.trans h'.toQuiet
  pristine f hf := by
    by_cases later : f ∈ taken more
    · exact h'.pristine f later
    · rw [taken_append, List.mem_append] at hf
      have early := h.pristine f (hf.resolve_right later)
      rw [Pristine, h'.leftover f later, h'.contents f later]
      exact early
  leftover f hf := by
    rw [taken_append, List.mem_append, not_or] at hf
    exact (h'.leftover f hf.2).trans (h.leftover f hf.1)

/-- Calls that hand out no frame. -/
theorem of_quiet (h : Quiet t u made) (none : taken made = [])
    (same : u.machine.handedOut = t.machine.handedOut) : HandsOut t u made where
  toQuiet := h
  pristine f hf := by
    rw [none] at hf
    cases hf
  leftover f _ := by rw [Inspected.leftover?, same, Inspected.leftover?]

end HandsOut

theorem handsOut_allocateFrame (t : Traced (Inspected π)) :
    HandsOut t (allocateFrame t).2 [.allocateFrame (allocateFrame t).1] where
  toQuiet := quiet_allocateFrame t
  pristine f hf := by
    have answer : (allocateFrame t).1 = some f := by simpa [taken, Call.taken?] using hf
    exact Inspected.leftover?_handOut_self (m := t.machine) answer
  leftover f hf := by
    apply Inspected.leftover?_handOut_other
    intro answer
    apply hf
    change f ∈ taken [.allocateFrame t.machine.handOut.1]
    rw [answer]
    exact List.mem_singleton_self f

theorem handsOut_note (n : Notice) (t : Traced (Inspected π)) :
    HandsOut t (note n t) [.note n] :=
  .of_quiet (undone_note n t).toQuiet rfl rfl

theorem handsOut_activate (space : AddressSpace) (t : Traced (Inspected π)) :
    HandsOut t (activate space t) [.activate space] :=
  .of_quiet (undone_activate space t).toQuiet rfl rfl

theorem handsOut_mapFresh {space : AddressSpace} {page : Page} {user : Bool}
    (h : mapFresh space page user t = (.ok (), u)) : ∃ made, HandsOut t u made := by
  have first := handsOut_allocateFrame t
  rw [mapFresh] at h
  rcases ha : allocateFrame t with ⟨_ | f, v⟩
  · rw [ha] at h
    cases h
  · rw [ha] at h first
    dsimp only at h first
    split at h
    · rename_i hm
      cases h
      have same : u.machine.handedOut = v.machine.handedOut := by
        have hu : u = (mapPage space page f user v).2 := congrArg Prod.snd hm.symm
        rw [hu]
        rfl
      exact ⟨_, first.trans (.of_quiet (quiet_mapPage hm) rfl same)⟩
    · cases h

/-- As long as pages are only mapped, their frames hold what they held when they were handed out. -/
theorem handsOut_mapAllFresh {space : AddressSpace} {user : Bool}
    {keep : Traced (Inspected π) → Page → Bool} {pages mapped : List Page}
    (h : mapAllFresh space user keep pages mapped t = (.ok (), u)) : ∃ made, HandsOut t u made := by
  induction pages generalizing mapped t with
  | nil =>
    cases h
    exact ⟨[], .refl _⟩
  | cons page pages ih =>
    rw [mapAllFresh] at h
    split at h
    · exact ih h
    · split at h
      · rename_i v hv
        obtain ⟨made, first⟩ := handsOut_mapFresh hv
        obtain ⟨more, rest⟩ := ih h
        exact ⟨_, first.trans rest⟩
      · cases h

end KernelCore
