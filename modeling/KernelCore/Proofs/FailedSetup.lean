import KernelCore.Proofs.FailedCreations
import KernelCore.Proofs.FailedLoads
import KernelCore.Proofs.RollbackCompleteness
import KernelCore.Proofs.WatchedMachines

/-!
# What a failed setup keeps

Adding a process and loading its image give back, when they fail, the root table of the new space
and the frames of the pages that were mapped. The tables made on the way to these pages are not given
back, though nothing is mapped in them then. Those of a space that is given up are out of reach; those
of a process that is stopped stay in its space. So a failed setup costs just as many frames as tables
were made.
-/
namespace KernelCore

namespace Tallied

open PageTable PagingMachine ProcessTable

variable {a b : Tallied} {space : AddressSpace} {user : Bool} {image : ExecutableImage}
  {t t' : ProcessTable}

theorem watches : Watches Tallied.machine := by
  constructor
  case inner_releaseSpace =>
    intro space a
    change releaseSpace space a.machine = (releaseCounting space a).map id machine
    rw [releaseCounting]
    split
    · rename_i active
      exact if_pos active
    · rfl
  all_goals
    intros
    rfl

/-- All that was taken, beside tables, was to be given back, and nothing was missed if the tables of
the space lie on one level each. -/
structure Reverted (space : AddressSpace) (a b : Tallied) : Prop where
  rolledBack : RolledBack a b
  complete : a.machine.Sound space → a.machine.Levelled space → b.missed = a.missed

theorem Reverted.refl (space : AddressSpace) (a : Tallied) : Reverted space a a :=
  ⟨.refl a, fun _ _ => rfl⟩

theorem takes_createSpace (h : createSpace a = (.ok space, b)) : Takes a b 1 := by
  obtain ⟨call, uncounted⟩ := delegate_eq (h : a.delegate createSpace = _)
  obtain ⟨f, allocated, -⟩ := allocate_of_createSpace call
  exact takes_allocated allocated uncounted

theorem takes_createSpace_error {e : MapError} (h : createSpace a = (.error e, b)) :
    Takes a b 0 := by
  obtain ⟨call, uncounted⟩ := delegate_eq (h : a.delegate createSpace = _)
  exact .of_same (congrArg PagingMachine.reserve (createSpace_error call)) uncounted

/-- The tables of a new space lie beside those of the active one, and its root is another. -/
theorem housed_createSpace (sound : a.machine.Sound (activeSpace a))
    (level : a.machine.Levelled (activeSpace a)) (h : createSpace a = (.ok space, b)) :
    (∃ roots, Housed roots b.machine.reserve b.machine.tables ∧ rootOf space ∈ roots) ∧
      space ≠ activeSpace b := by
  obtain ⟨call, -⟩ := delegate_eq (h : a.delegate createSpace = _)
  have root : rootOf (activeSpace a) = a.machine.root := rootOf_spaceOf a.machine.root
  have outside : ¬ a.machine.reserve.Holds a.machine.root := root ▸ sound.outside .root
  obtain ⟨f, allocated, rfl, stays, entries⟩ := createSpace_ok sound.orderly outside call
  obtain ⟨-, held, -⟩ := FrameReserve.allocate_some sound.orderly allocated
  refine ⟨⟨[f, rootOf (activeSpace a)], ?_, ?_⟩, fun same => ?_⟩
  · exact (sound.housed level).found (List.mem_singleton.mpr root.symm) allocated entries
  · rw [rootOf_spaceOf]
    exact List.mem_cons_self
  · have same' : rootOf (spaceOf f) = rootOf (spaceOf b.machine.root) := congrArg rootOf same
    rw [rootOf_spaceOf, rootOf_spaceOf, stays] at same'
    exact outside (same' ▸ held)

theorem missed_giveBackSpace (away : space ≠ activeSpace a) :
    (giveBackSpace space a).missed = a.missed := by
  have away' : ¬ space = activeSpace a.machine := away
  have released : (releaseSpace space a).2.missed = a.missed := by
    change (releaseCounting space a).2.missed = a.missed
    rw [releaseCounting, if_neg away']
    rfl
  rw [giveBackSpace]
  rcases h : releaseSpace space a with ⟨_ | dropped, b⟩ <;> rw [h] at released <;> exact released

theorem steadyMapping_activeSpace : SteadyMapping (activeSpace (π := Tallied)) where
  view_allocateFrame _ := rfl
  view_releaseFrame _ _ := rfl
  view_mapPage _ _ _ _ _ := rfl
  view_unmapPage _ _ _ := rfl
  view_note _ _ := rfl

/-- A process that cannot be added. -/
theorem reverted_create {name : String} {entry : Nat} {userland : Bool} {e : ProcessError}
    (h : t.create name entry userland a = (.error e, t', b)) :
    Reverted (activeSpace a) a b := by
  rcases create_error_stages h with rfl | ⟨-, ⟨cause, hs⟩ | ⟨slot, space, r, cause, s, hs, hm, rfl⟩⟩
  · exact .refl _ _
  · obtain ⟨-, uncounted⟩ := delegate_eq (hs : a.delegate createSpace = _)
    exact ⟨(RolledBack.refl _).wrap (takes_createSpace_error hs) (.refl _),
      fun _ _ => uncounted.missed⟩
  · obtain ⟨cause', failed⟩ := mapStack_error_stages hm
    refine ⟨(rolledBack_mapAllFresh failed).wrap (takes_createSpace hs)
      (returns_giveBackSpace space s), fun sound level => ?_⟩
    obtain ⟨-, uncounted⟩ := delegate_eq (hs : a.delegate createSpace = _)
    obtain ⟨⟨roots, housed, known⟩, away⟩ := housed_createSpace sound level hs
    have active : activeSpace s = activeSpace r := by
      have view := steadyMapping_activeSpace.view_mapStack userland space slot r
      rwa [hm] at view
    rw [← active] at away
    exact (missed_giveBackSpace away).trans
      ((missed_mapAllFresh housed known failed).trans uncounted.missed)

theorem reverted_load {e : ImageError} (h : image.load space user a = (.error e, b)) :
    Reverted space a b := by
  rcases ExecutableImage.load_error_stages h with rfl | ⟨segments, cause, -, -, failed⟩
  · exact .refl _ _
  · exact ⟨rolledBack_mapAllFresh failed, fun sound level =>
      missed_mapAllFresh (sound.housed level) (List.mem_singleton.mpr rfl) failed⟩

/-- What was done has nothing to do with frames. -/
structure Idle (a b : Tallied) : Prop extends Uncounted a b where
  reserve : b.machine.reserve = a.machine.reserve
  entries : b.machine.tables = a.machine.tables

theorem Idle.refl (a : Tallied) : Idle a a := ⟨⟨rfl, rfl, rfl, rfl⟩, rfl, rfl⟩

theorem idle_activate (space : AddressSpace) (a : Tallied) : Idle a (activate space a) :=
  ⟨⟨rfl, rfl, rfl, rfl⟩, rfl, rfl⟩

theorem idle_note (n : Notice) (a : Tallied) : Idle a (note n a) := ⟨⟨rfl, rfl, rfl, rfl⟩, rfl, rfl⟩

theorem Reverted.around {c d : Tallied} (h : Reverted space b c) (before : Idle a b)
    (after : Idle c d) : Reverted space a d where
  rolledBack := h.rolledBack.wrap (.of_same before.reserve before.toUncounted)
    (.of_same after.reserve after.toUncounted)
  complete sound level := by
    have sound' : b.machine.Sound space := by
      refine ⟨before.reserve ▸ sound.orderly, ?_⟩
      rw [before.reserve, before.entries]
      exact sound.outside
    have level' : b.machine.Levelled space := by
      rw [Levelled, before.entries]
      exact level
    exact after.missed.trans ((h.complete sound' level').trans before.missed)

theorem reverted_loadInto {e : ImageError} (h : loadInto image space user a = (.error e, b)) :
    Reverted space a b := by
  obtain ⟨r, load, rfl⟩ := loadInto_error_stages h
  refine (reverted_load load).around ?_ ?_
  · rw [ProcessTable.enter]
    split
    · exact .refl a
    · exact idle_activate space a
  · split
    · exact .refl r
    · exact idle_activate _ r

/-- A load fails without a trace if only the image can be at fault. -/
theorem reverted_loadAndRun {h : ProcessHandle} {q : Process} {e : ProcessError}
    (live : t.get h = .ok q) (started : q.state ≠ .exited) (stacked : q.kernelStack.isSome)
    (topped : q.stackTop.isSome) (hl : t.loadAndRun h image a = (.error e, t', b)) :
    Reverted q.space a b := by
  rcases loadAndRun_error_stages hl with ⟨-, rfl, -⟩ |
    ⟨r, live', idle, ⟨c, s, n, failed, -, -, rfl⟩ | ⟨info, -, refused⟩⟩
  · exact .refl _ _
  · obtain rfl := Except.ok.inj (live.symm.trans live')
    exact (reverted_loadInto failed).around (.refl a) (idle_note n s)
  · obtain rfl := Except.ok.inj (live.symm.trans live')
    rcases prepareForRun_refused live idle refused with ⟨-, exited⟩ | ⟨-, none | none⟩
    · exact absurd exited started
    · rw [none] at stacked
      cases stacked
    · rw [none] at topped
      cases topped

end Tallied

/-- The call was answered with an error. -/
def Answer.Fails (a : Answer) : Prop :=
  ∃ e, a = .created (.error e) ∨ a = .loaded (.error e)

namespace TableState

open PagingMachine FrameReserve

/-- Adding a process, or loading an image for a process that was added and that waits to run or is
stopped; with the space in which tables may be made, or to which a new space is added. -/
inductive SetsUp (t : ProcessTable) (active : AddressSpace) : Operation → AddressSpace → Prop where
  | create (name : String) (entry : Nat) (userland : Bool) :
      SetsUp t active (.create name entry userland) active
  | load {h : ProcessHandle} {q : Process} (image : ExecutableImage) (live : t.get h = .ok q)
      (added : h.slot ≠ kernelSlot) (waits : q.state = .ready ∨ q.state = .stopped) :
      SetsUp t active (.load h image) q.space

theorem perform_create {π : Type} [Platform π] (s : TableState π) (name : String) (entry : Nat)
    (userland : Bool) : s.perform (.create name entry userland) =
      (.created (s.table.create name entry userland s.machine).1,
        ⟨(s.table.create name entry userland s.machine).2.1,
          (s.table.create name entry userland s.machine).2.2⟩) := rfl

variable {t t' : ProcessTable} {before m m' : PagingMachine} {op : Operation} {answer : Answer}
  {space : AddressSpace}

/-- What a setup that fails has taken is given back, apart from the frames of tables. -/
theorem reverted_setup {p : PagingMachine} {a b : Tallied} (reach : Reachable p ⟨t, before⟩)
    (setup : SetsUp t (activeSpace a) op space)
    (failed : (TableState.mk t a).perform op = (answer, ⟨t', b⟩)) (error : answer.Fails) :
    a.Reverted space b := by
  cases setup with
  | create name entry userland =>
    rw [perform_create] at failed
    rcases hc : t.create name entry userland a with ⟨result, u, c⟩
    rw [hc] at failed
    obtain ⟨rfl, same⟩ := Prod.mk.inj failed
    cases same
    obtain ⟨e, here | here⟩ := error
    · cases here
      exact Tallied.reverted_create hc
    · cases here
  | @load h q image live added waits =>
    rw [perform_load] at failed
    rcases hl : t.loadAndRun h image a with ⟨result, u, c⟩
    rw [hl] at failed
    obtain ⟨rfl, same⟩ := Prod.mk.inj failed
    cases same
    obtain ⟨e, here | here⟩ := error
    · cases here
    · cases here
      have slot := (ProcessTable.get_eq_ok.mp live).1
      have started : q.state ≠ .exited := by
        intro exited
        rw [exited] at waits
        simp at waits
      exact Tallied.reverted_loadAndRun live started (reach.coherent.stack_owned slot added)
        (reach.stackTop_isSome slot added) hl

/-- If adding a process fails, or loading the image of one that was added, the machine has as many
frames left as before, less the tables that were made on the way to pages, the frames given back when
there was no room to keep them, and what was not found again. If at most as many frames are given back
as there is room for, none is lost, and everything is found again if no frame of the reserve is a
table and none is a table of two levels. So then it is the tables alone that are not given back. -/
theorem failed_setup_balance {p : PagingMachine} (reach : Reachable p ⟨t, before⟩)
    (setup : SetsUp t (activeSpace m) op space)
    (failed : (TableState.mk t m).perform op = (answer, ⟨t', m'⟩)) (error : answer.Fails) :
    ∃ w : Tallied, (TableState.mk t (Tallied.start m)).perform op = (answer, ⟨t', w⟩) ∧
      w.machine = m' ∧
      m'.reserve.deliverable + w.tables + w.dropped + w.missed = m.reserve.deliverable ∧
      (m.reserve.recycled.length ≤ recycleCapacity → w.returned ≤ recycleCapacity →
        w.dropped = 0) ∧
      (m.Sound space → m.Levelled space → w.missed = 0) ∧
      (m'.reserve.deliverable = m.reserve.deliverable ↔
        w.tables = 0 ∧ w.dropped = 0 ∧ w.missed = 0) := by
  have watched : (TableState.mk t m).perform op =
      ((TableState.mk t (Tallied.start m)).perform op).map id (unwatched Tallied.machine) :=
    perform_unwatched Tallied.watches ⟨t, Tallied.start m⟩ op
  rw [failed] at watched
  rcases run : (TableState.mk t (Tallied.start m)).perform op with ⟨answer', u, w⟩
  rw [run] at watched
  obtain ⟨rfl, same⟩ := Prod.mk.inj watched
  obtain ⟨rfl, inner⟩ := TableState.mk.inj same
  obtain rfl : w.machine = m' := inner.symm
  have watchedSetup : SetsUp t (activeSpace (Tallied.start m)) op space := setup
  have reverted := reverted_setup reach watchedSetup run error
  have total : w.machine.reserve.deliverable + w.tables + w.dropped + w.missed =
      m.reserve.deliverable := reverted.rolledBack.total_eq
  have returned : (Tallied.start m).returned = 0 := rfl
  refine ⟨w, rfl, rfl, total, fun fits few => ?_, reverted.complete, by omega⟩
  exact reverted.rolledBack.dropped_eq (.inl fits) (by omega)

/-- A machine with five frames and nothing mapped. -/
def fiveFrames : PagingMachine where
  reserve := { next := 0x1000000, limit := 0x1006000 }

/-- What is left of it when the second page of a stack cannot be mapped. -/
def exhausted : PagingMachine :=
  ((start fiveFrames).perform (.create "init" 0x400000 true)).2.machine

theorem create_fiveFrames : (start fiveFrames).perform (.create "init" 0x400000 true) =
    (.created (.error (.map .frameAllocationFailed)), ⟨(start fiveFrames).table, exhausted⟩) := by
  have failed :
      ((start fiveFrames).table.create "init" 0x400000 true (start fiveFrames).machine).1 =
        .error (.map .frameAllocationFailed) := by decide +kernel
  rcases hc : (start fiveFrames).table.create "init" 0x400000 true (start fiveFrames).machine with
    ⟨result, t, m⟩
  obtain rfl : result = .error (.map .frameAllocationFailed) := by rwa [hc] at failed
  obtain rfl := ProcessTable.create_error hc
  rw [exhausted, perform_create, hc]

theorem setsUp_fiveFrames : SetsUp (start fiveFrames).table (activeSpace fiveFrames)
    (.create "init" 0x400000 true) (activeSpace fiveFrames) := .create "init" 0x400000 true

theorem failed_setup_balance_fiveFrames : Reachable fiveFrames (start fiveFrames) ∧
    ∃ w : Tallied, w.machine = exhausted ∧ w.tables = 3 ∧ w.dropped = 0 ∧ w.missed = 0 ∧
      exhausted.reserve.deliverable + 3 = fiveFrames.reserve.deliverable := by
  have reach : Reachable fiveFrames (start fiveFrames) := ⟨[], .refl⟩
  obtain ⟨w, run, inner, balance, kept, found, -⟩ := failed_setup_balance reach
    setsUp_fiveFrames create_fiveFrames ⟨_, .inl rfl⟩
  have same : w = ((TableState.mk (start fiveFrames).table (Tallied.start fiveFrames)).perform
      (.create "init" 0x400000 true)).2.machine := congrArg (fun c => c.2.machine) run.symm
  have tables : w.tables = 3 := by
    rw [same]
    decide +kernel
  have returned : w.returned = 2 := by
    rw [same]
    decide +kernel
  have dropped := kept (by decide) (returned ▸ by decide)
  have missed := found (sound_of_zeros rfl rfl (by decide) (by decide)) (levelled_of_zeros rfl)
  exact ⟨reach, w, inner, tables, dropped, missed, by omega⟩

/-- A process of ring 3 could not be added, and three of five frames are gone. -/
theorem failed_create_keeps_tables :
    fiveFrames.reserve.recycled = [] ∧ fiveFrames.Sound (activeSpace fiveFrames) ∧
      fiveFrames.Levelled (activeSpace fiveFrames) ∧
      (start fiveFrames).perform (.create "init" 0x400000 true) =
        (.created (.error (.map .frameAllocationFailed)),
          ⟨(start fiveFrames).table, exhausted⟩) ∧
      fiveFrames.reserve.deliverable = 5 ∧ exhausted.reserve.deliverable = 2 := by
  refine ⟨rfl, sound_of_zeros rfl rfl (by decide) (by decide), levelled_of_zeros rfl,
    create_fiveFrames, ?_, ?_⟩ <;> decide +kernel

end TableState
end KernelCore
