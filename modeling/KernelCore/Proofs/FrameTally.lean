import KernelCore.Proofs.FrameBudget
import KernelCore.Proofs.FrameCustody
import KernelCore.Proofs.SteadyViews
import KernelCore.Proofs.TablePaths

/-!
# A tally of frames

A tallied machine counts the frames that mapping pages has taken for tables, the frames that were
given back, those of them that were lost for want of room, and the frames that should have been
given back but were not found. What is left in the reserve, together with the frames counted so and
those that are held, is always the same number. So what is rolled back leaves the reserve with as
many frames as it had, less the tables made on the way and what was lost or not found.
-/
namespace KernelCore

/-- What is done to map pages to fresh frames: these pages have been mapped, the last one first. -/
inductive MapsFresh {π : Type} [Platform π] (space : AddressSpace) (user : Bool) (p : π) :
    List Page → π → Prop where
  | start : MapsFresh space user p [] p
  | next {mapped : List Page} {page : Page} {q r : π} (before : MapsFresh space user p mapped q)
      (call : mapFresh space page user q = (.ok (), r)) : MapsFresh space user p (page :: mapped) r

/-- Mapping pages to fresh frames fails at one of them, and then those before it are taken out. -/
theorem mapAllFresh_error_stages {π : Type} [Platform π] {space : AddressSpace} {user : Bool}
    {keep : π → Page → Bool} {pages mapped : List Page} {p q r : π} {e : Option MapError}
    (before : MapsFresh space user p mapped q)
    (h : mapAllFresh space user keep pages mapped q = (.error e, r)) :
    ∃ all s page t, MapsFresh space user p all s ∧ mapFresh space page user s = (.error e, t) ∧
      r = unmapAndFree space all.reverse t := by
  induction pages generalizing mapped q with
  | nil => cases h
  | cons page pages ih =>
    rw [mapAllFresh] at h
    split at h
    · exact ih before h
    · split at h
      · rename_i s call
        exact ih (before.next call) h
      · rename_i cause t call
        obtain ⟨rfl, rfl⟩ : cause = e ∧ _ = r := by simpa using h
        exact ⟨mapped, q, page, t, before, call, rfl⟩

/-- A paging machine and what has become of its frames. -/
structure Tallied where
  machine : PagingMachine
  /-- Frames that mapping pages has taken for tables. -/
  tables : Nat
  /-- Frames that were given back, those included that were lost. -/
  returned : Nat
  /-- Frames that were given back when there was no room to keep them. -/
  dropped : Nat
  /-- Pages to take out that were not found, and spaces to give back that were active. -/
  missed : Nat

namespace Tallied

/-- Makes a call that does not change the tally. -/
def delegate {α : Type} (a : Tallied) (call : PagingMachine → α × PagingMachine) : α × Tallied :=
  ((call a.machine).1, { a with machine := (call a.machine).2 })

/-- Makes a call by which a frame is given back. -/
def takeBack (a : Tallied) (call : PagingMachine → Option Frame × PagingMachine) :
    Option Frame × Tallied :=
  ((call a.machine).1, { a with
    machine := (call a.machine).2
    returned := a.returned + 1
    dropped := a.dropped + if (call a.machine).1.isSome then 1 else 0 })

/-- The tally begins. -/
def start (m : PagingMachine) : Tallied := ⟨m, 0, 0, 0, 0⟩

/-- How many frames the tables for a page take. -/
def tablesFor (m : PagingMachine) (space : AddressSpace) (page : Page) : Nat :=
  min (PageTable.lacking m.tables page PageTable.depth (PagingMachine.rootOf space))
    m.reserve.deliverable

def mapCounting (space : AddressSpace) (page : Page) (frame : Frame) (user : Bool) (a : Tallied) :
    Except MapError Unit × Tallied :=
  ((mapPage space page frame user a.machine).1, { a with
    machine := (mapPage space page frame user a.machine).2
    tables := a.tables + tablesFor a.machine space page })

def unmapCounting (space : AddressSpace) (page : Page) (a : Tallied) : Option Frame × Tallied :=
  ((unmapPage space page a.machine).1, { a with
    machine := (unmapPage space page a.machine).2
    missed := a.missed + if (unmapPage space page a.machine).1.isSome then 0 else 1 })

def releaseCounting (space : AddressSpace) (a : Tallied) : Option Frame × Tallied :=
  if space = activeSpace a.machine then (none, { a with missed := a.missed + 1 })
  else a.takeBack (releaseSpace space)

instance : Platform Tallied where
  allocateFrame a := a.delegate allocateFrame
  releaseFrame f a := a.takeBack (releaseFrame f)
  activeSpace a := activeSpace a.machine
  activate space a := { a with machine := activate space a.machine }
  createSpace a := a.delegate createSpace
  releaseSpace := releaseCounting
  isMapped a space page := isMapped a.machine space page
  mapPage := mapCounting
  unmapPage := unmapCounting
  zeroRange address length a := a.delegate (zeroRange address length)
  copyIn address bytes a := a.delegate (copyIn address bytes)
  hasStackRoom a := hasStackRoom a.machine
  stackRegion a := stackRegion a.machine
  endOfInterrupt line a := { a with machine := endOfInterrupt line a.machine }
  setKernelStack top a := { a with machine := setKernelStack top a.machine }
  readFaultAddress a := a.delegate readFaultAddress
  dump report a := { a with machine := dump report a.machine }
  halt a := { a with machine := halt a.machine }
  memory a := memory a.machine
  setMemory bytes a := { a with machine := setMemory bytes a.machine }
  note n a := { a with machine := note n a.machine }

/-- The frames that the reserve can still deliver. -/
def left (a : Tallied) : Nat := a.machine.reserve.deliverable

/-- The frames in the reserve, in tables made since the tally began, and astray. -/
def total (a : Tallied) : Nat := a.left + a.tables + a.dropped + a.missed

/-- How many frames are kept for reuse. -/
def kept (a : Tallied) : Nat := a.machine.reserve.recycled.length

/-- As long as frames are kept there is room for those that are held. -/
def Roomy (a : Tallied) (held : Nat) : Prop :=
  a.kept + held ≤ FrameReserve.recycleCapacity ∨ a.kept = 0

/-- So many frames have been taken, beside those for tables. -/
structure Takes (a b : Tallied) (count : Nat) : Prop where
  total : b.total + count = a.total
  returned : b.returned = a.returned
  dropped : b.dropped = a.dropped
  room : ∀ held, a.Roomy held → b.Roomy (held + count)

/-- So many frames were to be given back. If those found have room, none of them is lost. -/
structure Returns (a b : Tallied) (count : Nat) : Prop where
  total : b.total = a.total + count
  more : a.returned ≤ b.returned
  most : b.returned ≤ a.returned + count
  room : a.kept + (b.returned - a.returned) ≤ FrameReserve.recycleCapacity →
    b.dropped = a.dropped ∧ b.kept = a.kept + (b.returned - a.returned)

variable {a b c : Tallied} {count more : Nat}

theorem Takes.trans (h : Takes a b count) (h' : Takes b c more) : Takes a c (count + more) where
  total := by rw [← h.total, ← h'.total]; omega
  returned := h'.returned.trans h.returned
  dropped := h'.dropped.trans h.dropped
  room held roomy := Nat.add_assoc held count more ▸ h'.room _ (h.room _ roomy)

theorem Returns.trans (h : Returns a b count) (h' : Returns b c more) :
    Returns a c (count + more) where
  total := by rw [h'.total, h.total, Nat.add_assoc]
  more := Nat.le_trans h.more h'.more
  most := by
    have first := h.most
    have rest := h'.most
    omega
  room fits := by
    have first := h.more
    have rest := h'.more
    obtain ⟨dropped, kept⟩ := h.room (by omega)
    obtain ⟨dropped', kept'⟩ := h'.room (by omega)
    exact ⟨dropped'.trans dropped, by omega⟩

/-- What was done is not counted. -/
structure Uncounted (a b : Tallied) : Prop where
  tables : b.tables = a.tables
  returned : b.returned = a.returned
  dropped : b.dropped = a.dropped
  missed : b.missed = a.missed

/-- A call that leaves the reserve alone takes nothing. -/
theorem Takes.of_same (reserve : b.machine.reserve = a.machine.reserve) (u : Uncounted a b) :
    Takes a b 0 where
  total := by simp only [Tallied.total, left, reserve, u.tables, u.dropped, u.missed, Nat.add_zero]
  returned := u.returned
  dropped := u.dropped
  room held roomy := by
    rw [Roomy, kept, reserve]
    exact roomy

theorem Returns.of_same (reserve : b.machine.reserve = a.machine.reserve) (u : Uncounted a b) :
    Returns a b 0 where
  total := by simp only [Tallied.total, left, reserve, u.tables, u.dropped, u.missed, Nat.add_zero]
  more := Nat.le_of_eq u.returned.symm
  most := Nat.le_of_eq u.returned
  room _ := ⟨u.dropped, by rw [kept, reserve, u.returned, Nat.sub_self]; rfl⟩

theorem Takes.refl (a : Tallied) : Takes a a 0 := .of_same rfl ⟨rfl, rfl, rfl, rfl⟩

theorem Returns.refl (a : Tallied) : Returns a a 0 := .of_same rfl ⟨rfl, rfl, rfl, rfl⟩

variable {f frame : Frame} {page : Page} {space : AddressSpace} {user : Bool} {pages : List Page}

/-! ### What single calls take and return -/

theorem delegate_eq {α : Type} {call : PagingMachine → α × PagingMachine} {answer : α}
    (h : a.delegate call = (answer, b)) :
    call a.machine = (answer, b.machine) ∧ Uncounted a b := by
  obtain ⟨rfl, rfl⟩ := Prod.mk.inj h
  exact ⟨rfl, rfl, rfl, rfl, rfl⟩

/-- A frame that comes from the reserve. -/
theorem takes_allocated (taken : a.machine.reserve.allocate = (some f, b.machine.reserve))
    (u : Uncounted a b) : Takes a b 1 := by
  refine ⟨?_, u.returned, u.dropped, fun held roomy => ?_⟩
  · have one := FrameReserve.deliverable_allocate taken
    simp only [total, left, u.tables, u.dropped, u.missed]
    omega
  · simp only [Roomy, kept] at roomy ⊢
    obtain ⟨rest, recycled, after⟩ | ⟨none, -, -, after⟩ := FrameReserve.allocate_cases taken <;>
      rw [after]
    · rw [recycled, List.length_cons] at roomy
      dsimp only
      omega
    · exact .inr (congrArg List.length none)

theorem takes_allocateFrame (h : allocateFrame a = (some f, b)) : Takes a b 1 := by
  obtain ⟨call, uncounted⟩ := delegate_eq (h : a.delegate allocateFrame = _)
  exact takes_allocated (PagingMachine.allocate_of_allocateFrame call) uncounted

theorem takes_allocateFrame_none (h : allocateFrame a = (none, b)) : Takes a b 0 := by
  obtain ⟨call, uncounted⟩ := delegate_eq (h : a.delegate allocateFrame = _)
  have allocated := PagingMachine.allocate_of_allocateFrame call
  exact .of_same (FrameReserve.allocate_none allocated) uncounted

theorem mapPage_eq {answer : Except MapError Unit}
    (h : mapPage space page frame user a = (answer, b)) :
    mapPage space page frame user a.machine = (answer, b.machine) ∧
      b = { a with machine := b.machine, tables := a.tables + tablesFor a.machine space page } := by
  change mapCounting space page frame user a = _ at h
  obtain ⟨rfl, rfl⟩ := Prod.mk.inj h
  exact ⟨rfl, rfl⟩

/-- The tables that a page needs are made of frames that are counted. -/
theorem takes_mapPage {answer : Except MapError Unit}
    (h : mapPage space page frame user a = (answer, b)) : Takes a b 0 := by
  obtain ⟨call, counted⟩ := mapPage_eq h
  have drawn := PageTable.mapBelow_draws (PagingMachine.map_of_mapPage call).1
  refine ⟨?_, by rw [counted], by rw [counted], fun held roomy => ?_⟩
  · have left : b.left = a.left - PageTable.lacking a.machine.tables page PageTable.depth
        (PagingMachine.rootOf space) :=
      (congrArg FrameReserve.deliverable drawn).trans (FrameReserve.deliverable_draw ..)
    rw [total, total, left, counted]
    simp only [tablesFor, Tallied.left]
    omega
  · have fewer : b.kept ≤ a.kept := by
      rw [kept, drawn]
      exact (FrameReserve.recycled_draw _ _).length_le
    rw [Roomy] at roomy ⊢
    omega

theorem returns_releaseFrame (f : Frame) (a : Tallied) : Returns a (releaseFrame f a).2 1 := by
  rcases released : a.machine.reserve.release f with ⟨dropped, r⟩
  have call : (releaseFrame f a).2 = { a with
      machine := { a.machine with reserve := r }
      returned := a.returned + 1
      dropped := a.dropped + if dropped.isSome then 1 else 0 } := by
    change (a.takeBack (PagingMachine.putFrame f)).2 = _
    simp only [takeBack, PagingMachine.putFrame, released]
  rw [call]
  refine ⟨?_, Nat.le_succ _, Nat.le_refl _, fun fits => ?_⟩
  · have one := FrameReserve.deliverable_release a.machine.reserve f
    rw [released] at one
    simp only [total, left] at one ⊢
    omega
  · simp only [kept, Nat.add_sub_cancel_left] at fits ⊢
    obtain ⟨-, rfl, rfl⟩ | ⟨full, -, -⟩ := FrameReserve.release_cases released
    · exact ⟨rfl, rfl⟩
    · omega

/-- A frame that was not found is missed. -/
theorem returns_unmapPage (space : AddressSpace) (page : Page) (a : Tallied) :
    Returns a (unmapPage space page a).2 (if (unmapPage space page a).1.isSome then 0 else 1) := by
  have reserve : (unmapPage space page a).2.machine.reserve = a.machine.reserve := rfl
  refine ⟨?_, Nat.le_refl _, Nat.le_add_right _ _, fun _ => ⟨rfl, ?_⟩⟩
  · have missed : (unmapPage space page a).2.missed =
      a.missed + if (unmapPage space page a).1.isSome then 0 else 1 := rfl
    have others : (unmapPage space page a).2.tables = a.tables ∧
      (unmapPage space page a).2.dropped = a.dropped := ⟨rfl, rfl⟩
    rw [total, total, left, left, reserve, missed, others.1, others.2]
    omega
  · have returned : (unmapPage space page a).2.returned = a.returned := rfl
    rw [kept, reserve, returned, Nat.sub_self]
    rfl

theorem returns_note (n : Notice) (a : Tallied) : Returns a (note n a) 0 :=
  .of_same rfl ⟨rfl, rfl, rfl, rfl⟩

theorem returns_giveBack (f : Frame) (a : Tallied) : Returns a (giveBack f a) 1 := by
  have released := returns_releaseFrame f a
  rw [giveBack]
  rcases h : releaseFrame f a with ⟨_ | dropped, b⟩ <;> rw [h] at released
  · exact released
  · exact released.trans (returns_note _ b)

/-- The root table of the active space stays with it, and is missed. -/
theorem returns_giveBackSpace (space : AddressSpace) (a : Tallied) :
    Returns a (giveBackSpace space a) 1 := by
  have released : Returns a (releaseSpace space a).2 1 := by
    change Returns a (releaseCounting space a).2 1
    rw [releaseCounting]
    split
    · exact ⟨by simp only [total, left]; omega, Nat.le_refl _, Nat.le_succ _,
        fun _ => ⟨rfl, by rw [Nat.sub_self]; rfl⟩⟩
    · rename_i away
      have same : releaseSpace space a.machine =
          releaseFrame (PagingMachine.rootOf space) a.machine := if_neg away
      have call : a.takeBack (releaseSpace space) =
          a.takeBack (releaseFrame (PagingMachine.rootOf space)) := by
        simp only [takeBack, same]
      rw [call]
      exact returns_releaseFrame _ a
  rw [giveBackSpace]
  rcases h : releaseSpace space a with ⟨_ | dropped, b⟩ <;> rw [h] at released
  · exact released
  · exact released.trans (returns_note _ b)

theorem returns_unmapAndFree (space : AddressSpace) (pages : List Page) (a : Tallied) :
    Returns a (unmapAndFree space pages a) pages.length := by
  induction pages generalizing a with
  | nil => exact .refl a
  | cons page pages ih =>
    have first := returns_unmapPage space page a
    rw [unmapAndFree, List.length_cons, Nat.add_comm]
    rcases h : unmapPage space page a with ⟨_ | f, b⟩ <;> rw [h] at first
    · exact first.trans (ih b)
    · exact (first.trans (returns_giveBack f b)).trans (ih _)

/-! ### What is rolled back -/

/-- So many frames were taken, beside those for tables, and then were to be given back. -/
def RolledBack (a c : Tallied) : Prop := ∃ b count, Takes a b count ∧ Returns b c count

theorem RolledBack.refl (a : Tallied) : RolledBack a a := ⟨a, 0, .refl a, .refl a⟩

/-- What is taken first is given back last. -/
theorem RolledBack.wrap {d : Tallied} (h : RolledBack b c) (takes : Takes a b count)
    (returns : Returns c d count) : RolledBack a d := by
  obtain ⟨m, more, first, rest⟩ := h
  exact ⟨m, count + more, takes.trans first, Nat.add_comm more count ▸ rest.trans returns⟩

theorem RolledBack.total_eq (h : RolledBack a c) : c.total = a.total := by
  obtain ⟨b, count, takes, returns⟩ := h
  rw [returns.total, takes.total]

/-- If as many frames can be kept as are given back, none is lost. -/
theorem RolledBack.dropped_eq (h : RolledBack a c) (roomy : a.Roomy 0)
    (few : c.returned ≤ a.returned + FrameReserve.recycleCapacity) : c.dropped = a.dropped := by
  obtain ⟨b, count, takes, returns⟩ := h
  have room := takes.room 0 roomy
  have most := returns.most
  rw [Nat.zero_add, Roomy] at room
  rw [← takes.returned] at few
  exact (returns.room (by omega)).1.trans takes.dropped

theorem takes_mapFresh (h : mapFresh space page user a = (.ok (), b)) : Takes a b 1 := by
  rw [mapFresh] at h
  split at h
  · cases h
  · rename_i taken
    split at h
    · rename_i mapped
      obtain rfl := (Prod.mk.inj h).2
      exact (takes_allocateFrame taken).trans (takes_mapPage mapped)
    · cases h

theorem rolledBack_mapFresh {e : Option MapError}
    (h : mapFresh space page user a = (.error e, b)) : RolledBack a b := by
  rw [mapFresh] at h
  split at h
  · rename_i none
    obtain rfl := (Prod.mk.inj h).2
    exact (RolledBack.refl _).wrap (takes_allocateFrame_none none) (.refl _)
  · rename_i taken
    split at h
    · cases h
    · rename_i failed
      obtain rfl := (Prod.mk.inj h).2
      exact (RolledBack.refl _).wrap ((takes_allocateFrame taken).trans (takes_mapPage failed))
        (returns_giveBack _ _)

theorem takes_mapsFresh (h : MapsFresh space user a pages b) : Takes a b pages.length := by
  induction h with
  | start => exact .refl a
  | next before call ih => exact ih.trans (takes_mapFresh call)

theorem rolledBack_mapAllFresh {keep : Tallied → Page → Bool} {e : Option MapError}
    (h : mapAllFresh space user keep pages [] a = (.error e, b)) : RolledBack a b := by
  obtain ⟨all, s, page, t, before, call, rfl⟩ := mapAllFresh_error_stages .start h
  have returns := returns_unmapAndFree space all.reverse t
  rw [List.length_reverse] at returns
  exact (rolledBack_mapFresh call).wrap (takes_mapsFresh before) returns

end Tallied
end KernelCore
