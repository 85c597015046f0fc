import KernelCore.Proofs.CallLedger
import KernelCore.Proofs.TableEffects

/-!
# Processes that could not be added

Adding a process takes a slot and a number, a kernel stack, a space and, for ring 3, the pages
of a stack in that space. The slot and the number are taken last, so an error leaves the table as it
is. If the stack of ring 3 cannot be mapped, what was mapped of it is taken out again and then the
space goes back. Pages that were there before stay.
-/
namespace KernelCore

namespace Call

/-- The space that the call has created. -/
def created? : Call → Option AddressSpace
  | .createSpace space => space
  | _ => none

/-- The space that the call has taken back. -/
def released? : Call → Option AddressSpace
  | .releaseSpace space => some space
  | _ => none

/-- The call has to do with mapping pages to frames, or notes something. -/
def mapsPages : Call → Bool
  | .allocateFrame _ | .releaseFrame _ | .mapPage .. | .unmapPage .. | .note _ => true
  | _ => false

theorem created?_of_mapsPages {c : Call} (h : c.mapsPages = true) : c.created? = none := by
  cases c <;> first | rfl | cases h

theorem released?_of_mapsPages {c : Call} (h : c.mapsPages = true) : c.released? = none := by
  cases c <;> first | rfl | cases h

end Call

/-- The spaces that the calls have created, the first one first. -/
def createdSpaces (calls : List Call) : List AddressSpace := calls.filterMap Call.created?

def releasedSpaces (calls : List Call) : List AddressSpace := calls.filterMap Call.released?

@[simp] theorem createdSpaces_append (calls more : List Call) :
    createdSpaces (calls ++ more) = createdSpaces calls ++ createdSpaces more :=
  List.filterMap_append

@[simp] theorem releasedSpaces_append (calls more : List Call) :
    releasedSpaces (calls ++ more) = releasedSpaces calls ++ releasedSpaces more :=
  List.filterMap_append

/-- A machine that hands out spaces and takes them back without a change to any other space. The
active space may be handed out again, and is then shared. -/
class LawfulSpaces (π : Type) [Platform π] [LawfulMemory π] : Prop where
  createSpace (p : π) (space : AddressSpace)
    (known : (createSpace p).1 = .ok space → space = activeSpace p) :
    (mappedMemory (createSpace p).2).backing space = (mappedMemory p).backing space
  releaseSpace (released space : AddressSpace) (p : π)
    (known : space = released → space = activeSpace p) :
    (mappedMemory (releaseSpace released p).2).backing space = (mappedMemory p).backing space

namespace FlatMachine

theorem memoryMap_newSpace (m : FlatMachine) : m.newSpace.2.memoryMap = m.memoryMap := by
  rw [newSpace]
  split
  · rfl
  · split <;> rfl

instance : LawfulSpaces FlatMachine where
  createSpace m space _ := congrArg (MappedMemory.backing · space) m.memoryMap_newSpace
  releaseSpace _ _ _ _ := rfl

end FlatMachine

variable {π : Type} [Platform π] [LawfulMemory π]

instance [LawfulSpaces π] : LawfulSpaces (Faulty π) where
  createSpace m space known := by
    change (m.attempt .error createSpace).1 = _ → _ at known
    change (mappedMemory (m.attempt .error createSpace).2).backing space = _
    rcases m.attempt_cases .error createSpace with ⟨e, h⟩ | h
    · rw [h]
      rfl
    · rw [h] at known ⊢
      exact LawfulSpaces.createSpace m.machine space known
  releaseSpace released space m known := LawfulSpaces.releaseSpace released space m.machine known

instance [LawfulSpaces π] : LawfulSpaces (Traced π) where
  createSpace t space known := LawfulSpaces.createSpace t.machine space known
  releaseSpace released space t known := LawfulSpaces.releaseSpace released space t.machine known

omit [LawfulMemory π] in
/-- A list of something that no call for mapping pages adds to. -/
theorem steadyMapping_filterMap {α : Type} {f : Call → Option α}
    (skips : ∀ c, c.mapsPages = true → f c = none) :
    SteadyMapping (π := Traced π) fun t => t.calls.filterMap f := by
  have single (t : Traced π) (c : Call) (machine : π) (h : c.mapsPages = true) :
      (t.record [c] machine).calls.filterMap f = t.calls.filterMap f := by
    rw [Traced.calls_record, List.filterMap_append, List.filterMap_cons_none (skips c h),
      List.filterMap_nil, List.append_nil]
  exact
    { view_allocateFrame := fun t => single t _ _ rfl
      view_releaseFrame := fun _ t => single t _ _ rfl
      view_mapPage := fun _ _ _ _ t => single t _ _ rfl
      view_unmapPage := fun _ _ t => single t _ _ rfl
      view_note := fun _ t => single t _ _ rfl }

variable {t u : Traced π} {made : List Call}

/-- These calls were made, and all frames and spaces that they have taken are given back: each as
often as it was taken, and no other one. Of all spaces only a new one may have other pages. -/
structure GivenBack (t u : Traced π) (made : List Call) : Prop where
  calls : u.calls = t.calls ++ made
  frames : (givenBack made).Perm (taken made)
  spaces : releasedSpaces made = createdSpaces made
  backing : ∀ space, (space ∈ createdSpaces made → space = activeSpace t) →
    (mappedMemory u).backing space = (mappedMemory t).backing space

theorem GivenBack.refl (t : Traced π) : GivenBack t t [] where
  calls := (List.append_nil _).symm
  frames := .nil
  spaces := rfl
  backing _ _ := rfl

namespace ProcessTable

omit [LawfulMemory π] in
/-- How far adding a process came before it failed. -/
theorem create_error_stages {t u : ProcessTable} {name : String} {entry : Nat} {userland : Bool}
    {e : ProcessError} {p q : π} (h : t.create name entry userland p = (.error e, u, q)) :
    q = p ∨ (e ≠ .tableFull ∧
      ((∃ cause, createSpace p = (.error cause, q)) ∨
        ∃ slot space r cause s, createSpace p = (.ok space, r) ∧
          mapStack userland space slot r = (.error cause, s) ∧ q = giveBackSpace space s)) := by
  rw [create] at h
  split at h
  · cases h
    exact .inl rfl
  · split at h
    · cases h
      exact .inl rfl
    · split at h
      · cases h
        exact .inl rfl
      · split at h
        · rename_i cause r hs
          cases h
          exact .inr ⟨by simp, .inl ⟨cause, hs⟩⟩
        · rename_i space r hs
          split at h
          · rename_i cause s hm
            cases h
            exact .inr ⟨by simp, .inr ⟨_, space, r, cause, s, hs, hm, rfl⟩⟩
          · cases h

omit [LawfulMemory π] in
/-- Only a stack of ring 3 has pages that may not be mapped. -/
theorem mapStack_error_stages {userland : Bool} {space : AddressSpace} {slot : Fin maxProcesses}
    {e : MapError} {p q : π} (h : mapStack userland space slot p = (.error e, q)) :
    ∃ cause, mapAllFresh space true (fun p page => isMapped p space page) (UserStack.pages slot) []
      p = (.error cause, q) := by
  rw [mapStack] at h
  split at h
  · rw [UserStack.map] at h
    rcases hm : mapAllFresh space true (fun p page => isMapped p space page)
      (UserStack.pages slot) [] p with ⟨cause | _, r⟩
    · rw [hm] at h
      cases h
      exact ⟨cause, rfl⟩
    · rw [hm] at h
      cases h
  · cases h

/-- A stack that could not be mapped is taken out again, and its space stays. -/
theorem mapStack_error {userland : Bool} {space : AddressSpace} {slot : Fin maxProcesses}
    {e : MapError} (h : mapStack userland space slot t = (.error e, u)) :
    ∃ made, Undone t u made ∧ createdSpaces made = [] ∧ releasedSpaces made = [] := by
  obtain ⟨cause, failed⟩ := mapStack_error_stages h
  obtain ⟨made, undone⟩ := mapAllFresh_error (.refl space true t) rfl failed
  have silent {f : Call → Option AddressSpace} (skips : ∀ c, c.mapsPages = true → f c = none) :
      made.filterMap f = [] := by
    have same := (steadyMapping_filterMap skips).view_mapStack userland space slot t
    rw [h, undone.calls, List.filterMap_append] at same
    exact List.append_right_eq_self.mp same
  exact ⟨made, undone, silent fun _ => Call.created?_of_mapsPages,
    silent fun _ => Call.released?_of_mapsPages⟩

end ProcessTable

omit [LawfulMemory π] in
theorem calls_createSpace {r : Except MapError AddressSpace} (h : createSpace t = (r, u)) :
    u.calls = t.calls ++ [.createSpace (Traced.created r)] := by
  have all := t.calls_record [.createSpace (Traced.created (createSpace t.machine).1)]
    (createSpace t.machine).2
  change (createSpace t).2.calls = t.calls ++ [.createSpace (Traced.created (createSpace t).1)]
    at all
  rwa [h] at all

/-- A space goes back once, whether or not there is room to keep it. -/
theorem giveBackSpace_calls (space : AddressSpace) (t : Traced π) :
    ∃ made, (giveBackSpace space t).calls = t.calls ++ made ∧ taken made = [] ∧
      givenBack made = [] ∧ createdSpaces made = [] ∧ releasedSpaces made = [space] ∧
      mappedMemory (giveBackSpace space t) = mappedMemory (releaseSpace space t).2 := by
  have released : (releaseSpace space t).2.calls = t.calls ++ [.releaseSpace space] :=
    t.calls_record _ _
  rw [giveBackSpace]
  rcases hr : releaseSpace space t with ⟨_ | dropped, v⟩
  · rw [hr] at released
    exact ⟨_, released, rfl, rfl, rfl, rfl, rfl⟩
  · rw [hr] at released
    have noted := (undone_note (.warn ("memory: recycle list full, dropping frame " ++
      hex dropped.start)) v).calls
    rw [released, List.append_assoc] at noted
    exact ⟨_, noted, rfl, rfl, rfl, rfl, LawfulMemory.note _ v⟩

/-- A space was created, something was done in it and undone, and the space went back. -/
theorem givenBack_of_undone [LawfulPlatform π] [LawfulSpaces π] {space : AddressSpace}
    {t r u : Traced π} {made : List Call} (created : createSpace t = (.ok space, r))
    (undone : Undone r u made) (active : activeSpace u = activeSpace r)
    (noneCreated : createdSpaces made = []) (noneReleased : releasedSpaces made = []) :
    ∃ all, GivenBack t (giveBackSpace space u) all := by
  obtain ⟨more, back, frames, noFrames, spaces, noSpaces, same⟩ := giveBackSpace_calls space u
  have first : r.calls = t.calls ++ [.createSpace (some space)] := calls_createSpace created
  have stays : activeSpace r = activeSpace t := by
    have view := LawfulPlatform.steady_activeSpace.view_createSpace t
    rwa [created] at view
  refine ⟨[.createSpace (some space)] ++ made ++ more, ?_, ?_, ?_, fun s known => ?_⟩
  · rw [back, undone.calls, first, List.append_assoc, List.append_assoc, List.append_assoc]
  · rw [givenBack_append, givenBack_append, taken_append, taken_append, frames, noFrames,
      List.append_nil, List.append_nil]
    exact undone.balanced
  · rw [releasedSpaces_append, releasedSpaces_append, createdSpaces_append, createdSpaces_append,
      noneCreated, noneReleased, spaces, noSpaces]
    rfl
  · have fresh : s = space → s = activeSpace t := by
      rintro rfl
      exact known (by simp [createdSpaces, Call.created?])
    have before := LawfulSpaces.createSpace t s fun h => by
      rw [created] at h
      exact fresh (Except.ok.inj h).symm
    have after := LawfulSpaces.releaseSpace space s u fun h => by
      rw [active, stays]
      exact fresh h
    rw [created] at before
    rw [same, after, undone.backing]
    exact before

namespace TableState

variable [LawfulPlatform π] [LawfulSpaces π] {s u : TableState (Traced π)} {name : String}
  {entry : Nat} {userland : Bool} {e : ProcessError}

/-- A process that cannot be added leaves no trace: the table is as before, all frames and spaces
that were taken for it are given back, and the pages of every space that was there are mapped as
before, also those of the stack of its slot. If there is no slot or no number left, nothing at all
is asked of the machine. -/
theorem failed_create_gives_back
    (failed : s.perform (.create name entry userland) = (.created (.error e), u)) :
    u.table = s.table ∧ (∃ made, GivenBack s.machine u.machine made) ∧
      (e = .tableFull → u.machine = s.machine) := by
  dsimp only [perform] at failed
  rcases hc : s.table.create name entry userland s.machine with ⟨result, t, m⟩
  rw [hc] at failed
  cases failed
  refine ⟨ProcessTable.create_error hc, ?_⟩
  rcases ProcessTable.create_error_stages hc with rfl | ⟨late, ⟨cause, hs⟩ | stages⟩
  · exact ⟨⟨[], .refl _⟩, fun _ => rfl⟩
  · have made : m.calls = s.machine.calls ++ [.createSpace none] := calls_createSpace hs
    refine ⟨⟨[.createSpace none], made, .nil, rfl, fun space _ => ?_⟩, fun h => absurd h late⟩
    have same := LawfulSpaces.createSpace s.machine space fun h => by
      rw [hs] at h
      cases h
    rwa [hs] at same
  · obtain ⟨slot, space, r, cause, v, hs, hm, rfl⟩ := stages
    obtain ⟨made, undone, noneCreated, noneReleased⟩ := ProcessTable.mapStack_error hm
    have active := LawfulPlatform.steady_activeSpace.mapping.view_mapStack userland space slot r
    rw [hm] at active
    exact ⟨givenBack_of_undone hs undone active noneCreated noneReleased, fun h => absurd h late⟩

/-- A machine with a space for each process that cannot map the second page of the first stack. -/
def cramped : TableState (Traced (Faulty FlatMachine)) :=
  start ⟨⟨{ separate := true }, fun n => if n = 4 then some .parentEntryHugePage else none, 0⟩, []⟩

theorem failed_create_gives_back_cramped :
    ∃ u, cramped.perform (.create "init" 0x400000 true) =
        (.created (.error (.map .parentEntryHugePage)), u) ∧ u.table = cramped.table ∧
      ∃ made, GivenBack cramped.machine u.machine made ∧ taken made = [⟨0x1000⟩, ⟨0x1001⟩] ∧
        givenBack made = [⟨0x1001⟩, ⟨0x1000⟩] ∧ releasedSpaces made = [⟨0x101000⟩] := by
  have failed : (cramped.table.create "init" 0x400000 true cramped.machine).1 =
      .error (.map .parentEntryHugePage) := by decide +kernel
  obtain ⟨u, hu⟩ : ∃ u, cramped.perform (.create "init" 0x400000 true) =
      (.created (.error (.map .parentEntryHugePage)), u) :=
    ⟨⟨_, (cramped.table.create "init" 0x400000 true cramped.machine).2.2⟩, by
      dsimp only [perform]; rw [failed]⟩
  obtain ⟨table, ⟨made, back⟩, -⟩ := failed_create_gives_back hu
  have all := back.calls
  have none : cramped.machine.calls = [] := rfl
  rw [none, List.nil_append] at all
  have machine : u = (cramped.perform (.create "init" 0x400000 true)).2 := by rw [hu]
  refine ⟨u, hu, table, made, back, ?_, ?_, ?_⟩ <;> rw [← all, machine] <;> decide +kernel

end TableState
end KernelCore
