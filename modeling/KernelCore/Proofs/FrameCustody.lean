import KernelCore.Proofs.PoolSelection
import KernelCore.Proofs.TableGrowth
import Mathlib.Data.List.Nodup

/-!
# Who has which frame

Frames leave the reserve from the start of the pool and go round between their holders and the list
for reuse, until that list is full: a frame that is given back then is lost. So every frame that was
ever handed out is held, kept for reuse or lost, and only in one of these ways, as long as holders
give back only what they hold. The pool goes on above all of them.
-/
namespace KernelCore

/-- A call that takes a frame or gives one back, with its answer. -/
inductive FrameCall where
  | take (answer : Option Frame)
  /-- The answer is the frame if there was no room to keep it. -/
  | give (f : Frame) (dropped : Option Frame)
  deriving DecidableEq, Repr

namespace FrameCall

def dropped? : FrameCall → Option Frame
  | .take _ => none
  | .give _ dropped => dropped

end FrameCall

/-- The frames that the calls have lost. -/
def droppedFrames (history : List FrameCall) : List Frame := history.filterMap FrameCall.dropped?

theorem droppedFrames_append (history : List FrameCall) (call : FrameCall) :
    droppedFrames (history ++ [call]) = droppedFrames history ++ call.dropped?.toList := by
  rw [droppedFrames, List.filterMap_append]
  cases h : call.dropped? <;> simp [droppedFrames, h]

/-- What is lost with one call is not handed out by a later one. -/
def Final (history : List FrameCall) : Prop :=
  history.Pairwise fun call later => ∀ f, call.dropped? = some f → later ≠ .take (some f)

theorem Final.append {history : List FrameCall} (h : Final history) {call : FrameCall}
    (fresh : ∀ f ∈ droppedFrames history, call ≠ .take (some f)) : Final (history ++ [call]) := by
  refine List.pairwise_append.mpr ⟨h, List.pairwise_singleton _ _, ?_⟩
  intro earlier before later last f lost
  obtain rfl := List.mem_singleton.mp last
  exact fresh f (List.mem_filterMap.mpr ⟨earlier, before, lost⟩)

namespace FrameReserve

variable {r r' : FrameReserve} {f : Frame} {dropped : Option Frame}

/-- A frame is kept if there is room for it, and lost otherwise. -/
theorem release_cases (h : r.release f = (dropped, r')) :
    (r.recycled.length < recycleCapacity ∧ dropped = none ∧
      r' = { r with recycled := f :: r.recycled }) ∨
    (recycleCapacity ≤ r.recycled.length ∧ dropped = some f ∧ r' = r) := by
  rw [release] at h
  split at h
  · rename_i room
    obtain ⟨rfl, rfl⟩ := Prod.mk.inj h
    exact .inl ⟨room, rfl, rfl⟩
  · rename_i full
    obtain ⟨rfl, rfl⟩ := Prod.mk.inj h
    exact .inr ⟨Nat.le_of_not_lt full, rfl, rfl⟩

/-- Every frame handed out since the pool was `start` to `past` is kept for reuse, held or lost. -/
structure Accounted (start past : Nat) (history : List FrameCall) (held : List Frame)
    (r : FrameReserve) : Prop where
  limit : r.limit = past
  low : start ≤ r.next
  capacity : r.recycled.length ≤ recycleCapacity
  once : (r.recycled ++ (held ++ droppedFrames history)).Nodup
  inside : ∀ f ∈ r.recycled ++ (held ++ droppedFrames history),
    start ≤ f.start ∧ f.start + pageSize ≤ r.next ∧ f.start + pageSize ≤ past
  final : Final history

namespace Accounted

variable {start past : Nat} {history : List FrameCall} {held : List Frame}

theorem first {start past : Nat} :
    Accounted start past [] [] { next := start, limit := past } where
  limit := rfl
  low := Nat.le_refl _
  capacity := Nat.zero_le _
  once := .nil
  inside := nofun
  final := .nil

/-- A frame that comes next is neither held nor lost, and lies in the pool. -/
theorem next_frame (a : Accounted start past history held r) (h : r.allocate = (some f, r')) :
    f ∉ held ++ droppedFrames history ∧ start ≤ f.start ∧ f.start + pageSize ≤ past := by
  obtain ⟨rest, recycled, rfl⟩ | ⟨recycled, low, high, rfl⟩ := allocate_cases h
  · have once := a.once
    rw [recycled, List.cons_append, List.nodup_cons, List.mem_append, not_or] at once
    have mem : f ∈ r.recycled ++ (held ++ droppedFrames history) := by
      rw [recycled]
      exact List.mem_cons_self
    exact ⟨once.1.2, (a.inside f mem).1, (a.inside f mem).2.2⟩
  · refine ⟨fun old => ?_, Nat.le_trans a.low low, a.limit ▸ Nat.le_of_lt high⟩
    -- What was handed out before lies below the rest of the pool.
    have below := (a.inside f (List.mem_append_right _ old)).2.1
    have size : 0 < pageSize := by decide
    omega

theorem take (a : Accounted start past history held r) {answer : Option Frame}
    (h : r.allocate = (answer, r')) :
    Accounted start past (history ++ [.take answer]) (held ++ answer.toList) r' := by
  have same : droppedFrames (history ++ [.take answer]) = droppedFrames history := by
    rw [droppedFrames_append]
    exact List.append_nil _
  cases answer with
  | none =>
    obtain rfl := allocate_none h
    have fresh : ∀ f ∈ droppedFrames history, FrameCall.take none ≠ .take (some f) := nofun
    refine ⟨a.limit, a.low, a.capacity, ?_, ?_, a.final.append fresh⟩ <;>
      rw [same, Option.toList_none, List.append_nil]
    · exact a.once
    · exact a.inside
  | some f =>
    obtain ⟨new, low, high⟩ := a.next_frame h
    have fresh : ∀ g ∈ droppedFrames history, FrameCall.take (some f) ≠ .take (some g) := by
      rintro g lost ⟨⟩
      exact new (List.mem_append_right _ lost)
    have perm (kept : List Frame) : (kept ++ (held ++ [f] ++ droppedFrames history)).Perm
        (f :: (kept ++ (held ++ droppedFrames history))) := by
      rw [List.append_assoc, List.singleton_append]
      exact (List.perm_middle.append_left kept).trans List.perm_middle
    obtain ⟨rest, recycled, rfl⟩ | ⟨recycled, past_next, below, rfl⟩ := allocate_cases h
    · have capacity := a.capacity
      have once := a.once
      have inside := a.inside
      rw [recycled] at capacity once inside
      refine ⟨a.limit, a.low, Nat.le_of_succ_le capacity, ?_, fun g mem => ?_,
        a.final.append fresh⟩
      · rw [same]
        exact (perm rest).nodup_iff.mpr once
      · rw [same] at mem
        exact inside g ((perm rest).mem_iff.mp mem)
    · have next_le : r.next ≤ f.start + pageSize := Nat.le_trans past_next (Nat.le_add_right ..)
      have once := a.once
      have inside := a.inside
      rw [recycled] at once inside
      refine ⟨a.limit, Nat.le_trans a.low next_le, a.capacity, ?_, fun g mem => ?_,
        a.final.append fresh⟩
      · rw [same, recycled]
        exact (perm []).nodup_iff.mpr (List.nodup_cons.mpr ⟨new, once⟩)
      · rw [same, recycled] at mem
        obtain rfl | old := List.mem_cons.mp ((perm []).mem_iff.mp mem)
        · exact ⟨low, Nat.le_refl _, high⟩
        · obtain ⟨hlow, hnext, hpast⟩ := inside g old
          exact ⟨hlow, Nat.le_trans hnext next_le, hpast⟩

theorem give (a : Accounted start past history held r) (holds : f ∈ held)
    (h : r.release f = (dropped, r')) :
    Accounted start past (history ++ [.give f dropped]) (held.erase f) r' := by
  have final : Final (history ++ [.give f dropped]) := a.final.append nofun
  have capacity := length_recycled_release_le f a.capacity
  rw [h] at capacity
  have out : held.Perm (f :: held.erase f) := List.perm_cons_erase holds
  obtain ⟨-, rfl, rfl⟩ | ⟨-, rfl, same⟩ := release_cases h
  · have perm : (f :: r.recycled ++ (held.erase f ++ droppedFrames (history ++ [.give f none]))).Perm
        (r.recycled ++ (held ++ droppedFrames history)) := by
      rw [droppedFrames_append, FrameCall.dropped?, Option.toList_none, List.append_nil]
      exact List.perm_middle.symm.trans ((out.append_right _).symm.append_left _)
    exact ⟨a.limit, a.low, capacity, perm.nodup_iff.mpr a.once,
      fun g mem => a.inside g (perm.mem_iff.mp mem), final⟩
  · have perm : (r.recycled ++
        (held.erase f ++ droppedFrames (history ++ [.give f (some f)]))).Perm
        (r.recycled ++ (held ++ droppedFrames history)) := by
      rw [droppedFrames_append, FrameCall.dropped?, Option.toList_some]
      have first := (List.perm_append_singleton f (droppedFrames history)).append_left (held.erase f)
      exact (first.trans (List.perm_middle.trans (out.symm.append_right _))).append_left _
    rw [same] at capacity ⊢
    exact ⟨a.limit, a.low, capacity, perm.nodup_iff.mpr a.once,
      fun g mem => a.inside g (perm.mem_iff.mp mem), final⟩

end Accounted

end FrameReserve

namespace PagingMachine

open FrameReserve

/-- Frames are taken and given back, each frame as often as it was taken: the calls made, the first
one first, and the frames held in the end. -/
inductive Custody (m : PagingMachine) : List FrameCall → List Frame → PagingMachine → Prop where
  | refl : Custody m [] [] m
  | take {history held u answer v} (run : Custody m history held u)
      (call : allocateFrame u = (answer, v)) :
      Custody m (history ++ [.take answer]) (held ++ answer.toList) v
  | give {history held u f dropped v} (run : Custody m history held u) (holds : f ∈ held)
      (call : releaseFrame f u = (dropped, v)) :
      Custody m (history ++ [.give f dropped]) (held.erase f) v

variable {m u v : PagingMachine} {history : List FrameCall} {held : List Frame} {f : Frame}

theorem allocate_of_allocateFrame {answer : Option Frame} (h : allocateFrame u = (answer, v)) :
    u.reserve.allocate = (answer, v.reserve) :=
  congrArg (fun c : Option Frame × PagingMachine => (c.1, c.2.reserve)) h

theorem release_of_releaseFrame {dropped : Option Frame} (h : releaseFrame f u = (dropped, v)) :
    u.reserve.release f = (dropped, v.reserve) :=
  congrArg (fun c : Option Frame × PagingMachine => (c.1, c.2.reserve)) h

theorem Custody.accounted {start past : Nat} (run : Custody m history held u)
    (first : Accounted start past [] [] m.reserve) :
    Accounted start past history held u.reserve := by
  induction run with
  | refl => exact first
  | take _ call ih => exact ih.take (allocate_of_allocateFrame call)
  | give _ holds call ih => exact ih.give holds (release_of_releaseFrame call)

/-- However frames are taken and given back once memory has been set up, a frame that is handed out
is not held, and lies wholly in the region chosen, above the floor. The list for reuse holds no
frame twice and none that is held, never more than it has room for, and a frame given back when it
is full is not handed out again. -/
theorem frames_in_custody {offset : Option Nat} {regions : List MemoryRegion} {notice : Notice}
    {booted : PagingMachine} (unused : m.reserve = {})
    (init : m.init offset regions = (.ok notice, booted)) (run : Custody booted history held u) :
    ∃ r ∈ regions, r.usable = true ∧
      choosePool regions = .ok (max r.start FrameReserve.floor, r.past) ∧
      (∀ f v, allocateFrame u = (some f, v) → f ∉ held ∧ f.start % pageSize = 0 ∧
        r.start ≤ f.start ∧ f.start + pageSize ≤ r.past ∧ FrameReserve.floor ≤ f.start) ∧
      u.reserve.recycled.length ≤ recycleCapacity ∧ u.reserve.recycled.Nodup ∧
      (∀ f ∈ u.reserve.recycled, f ∉ held) ∧
      (∀ f, (releaseFrame f u).1 =
        if u.reserve.recycled.length = recycleCapacity then some f else none) ∧
      Final history := by
  obtain ⟨start, past, chosen, reserve⟩ := reserve_of_init init
  rw [unused] at reserve
  obtain ⟨r, mem, usable, rfl, rfl⟩ := choosePool_ok chosen
  have a := run.accounted (reserve ▸ Accounted.first)
  obtain ⟨distinct, -, apart⟩ := List.nodup_append.mp a.once
  refine ⟨r, mem, usable, chosen, fun f v call => ?_, a.capacity, distinct, fun f kept holds => ?_,
    fun f => ?_, a.final⟩
  · obtain ⟨new, low, high⟩ := a.next_frame (allocate_of_allocateFrame call)
    obtain ⟨inRegion, aboveFloor⟩ := Nat.max_le.mp low
    exact ⟨fun holds => new (List.mem_append_left _ holds), Nat.mul_mod_left .., inRegion, high,
      aboveFloor⟩
  · exact apart f kept f (List.mem_append_left _ holds) rfl
  · rcases given : releaseFrame f u with ⟨dropped, v⟩
    obtain ⟨room, lost, -⟩ | ⟨full, lost, -⟩ := release_cases (release_of_releaseFrame given)
    · rw [lost, if_neg (Nat.ne_of_lt room)]
    · rw [lost, if_pos (Nat.le_antisymm a.capacity full)]

/-- A machine with memory for a few frames above the floor. -/
def equipped : Except PoolError Notice × PagingMachine :=
  PagingMachine.init (some 0)
    [⟨0, 0x9f000, true, by decide⟩, ⟨0x100000, 0x1005000, true, by decide⟩] {}

/-- Two frames have been taken and the first of them is back. -/
def returned : PagingMachine :=
  (releaseFrame ⟨0x1000⟩ (allocateFrame (allocateFrame equipped.2).2).2).2

theorem custody_returned : Custody equipped.2
    [.take (some ⟨0x1000⟩), .take (some ⟨0x1001⟩), .give ⟨0x1000⟩ none] [⟨0x1001⟩] returned := by
  have first : allocateFrame equipped.2 = (some ⟨0x1000⟩, (allocateFrame equipped.2).2) :=
    Prod.ext (by decide +kernel) rfl
  have second : allocateFrame (allocateFrame equipped.2).2 =
      (some ⟨0x1001⟩, (allocateFrame (allocateFrame equipped.2).2).2) :=
    Prod.ext (by decide +kernel) rfl
  have back : releaseFrame ⟨0x1000⟩ (allocateFrame (allocateFrame equipped.2).2).2 =
      (none, returned) := Prod.ext (by decide +kernel) rfl
  exact ((Custody.refl.take first).take second).give (by decide) back

/-- The frame that is back is the next one, and nobody holds it. -/
theorem frames_in_custody_returned : (allocateFrame returned).1 = some ⟨0x1000⟩ ∧
    (⟨0x1000⟩ : Frame) ∉ [(⟨0x1001⟩ : Frame)] ∧ returned.reserve.recycled.Nodup := by
  have ready : equipped.1 = .ok (.info
      "memory: frame pool 0x1000000..0x1005000, physical window at 0x0") := by decide +kernel
  obtain ⟨r, -, -, -, handed, -, once, -⟩ :=
    frames_in_custody rfl (Prod.ext ready rfl) custody_returned
  have next : (allocateFrame returned).1 = some ⟨0x1000⟩ := by decide +kernel
  exact ⟨next, (handed ⟨0x1000⟩ (allocateFrame returned).2 (Prod.ext next rfl)).1, once⟩

end PagingMachine
end KernelCore
