import KernelCore.Proofs.FrameBudget
import KernelCore.Proofs.FrameCustody

/-!
# How far the frame pool is used up

The pool is handed out frame by frame from its start on. So however frames are taken and given
back, everything below the next frame has been handed out, and a frame is refused only if there is
none to reuse and the next one would not end below the end of the pool. A frame that ends just there
is never handed out: a pool that ends with a whole frame is used up but for this one.
-/
namespace KernelCore

namespace FrameCall

def taken? : FrameCall → Option Frame
  | .take answer => answer
  | .give _ _ => none

end FrameCall

/-- The frames that the calls have handed out. -/
def handedOut (history : List FrameCall) : List Frame := history.filterMap FrameCall.taken?

@[simp] theorem handedOut_append_take (history : List FrameCall) (answer : Option Frame) :
    handedOut (history ++ [.take answer]) = handedOut history ++ answer.toList := by
  cases answer <;> simp [handedOut, FrameCall.taken?]

@[simp] theorem handedOut_append_give (history : List FrameCall) (f : Frame)
    (dropped : Option Frame) :
    handedOut (history ++ [.give f dropped]) = handedOut history := by
  simp [handedOut, FrameCall.taken?]

namespace FrameReserve

variable {r r' : FrameReserve} {f : Frame} {dropped : Option Frame}

/-- What starts below the end of the next frame starts below this frame, or is this frame. -/
theorem lt_or_eq_frameFrom {a : Nat} {g : Frame} (h : g.start < (frameFrom a).start + pageSize) :
    g.start < a ∨ g = frameFrom a := by
  by_cases low : g.start < a
  · exact .inl low
  · refine .inr (congrArg Frame.mk ?_)
    simp only [frameFrom, Frame.start, pageSize] at h low ⊢
    omega

/-- What was there to hand out, from `start` to `past` and in a list, is still there or was handed
out. -/
structure Spent (start past : Nat) (listed : List Frame) (history : List FrameCall)
    (r : FrameReserve) : Prop where
  limit : r.limit = past
  pool : ∀ f, start ≤ f.start → f.start < r.next → f ∈ handedOut history
  listed : ∀ f ∈ listed, f ∈ r.recycled ∨ f ∈ handedOut history

namespace Spent

variable {start past : Nat} {listed : List Frame} {history : List FrameCall}

theorem first (r : FrameReserve) : Spent r.next r.limit r.recycled [] r where
  limit := rfl
  pool _ low high := absurd low (Nat.not_le.mpr high)
  listed _ mem := .inl mem

theorem take (s : Spent start past listed history r) {answer : Option Frame}
    (h : r.allocate = (answer, r')) :
    Spent start past listed (history ++ [.take answer]) r' := by
  cases answer with
  | none =>
    obtain rfl := allocate_none h
    exact ⟨s.limit, by simpa using s.pool, by simpa using s.listed⟩
  | some f =>
    have more (g : Frame) : g ∈ handedOut (history ++ [.take (some f)]) ↔
        g ∈ handedOut history ∨ g = f := by simp
    obtain ⟨rest, recycled, rfl⟩ | ⟨none, -, -, rfl⟩ := allocate_cases h
    · refine ⟨s.limit, fun g low high => (more g).mpr (.inl (s.pool g low high)), fun g mem => ?_⟩
      rw [more]
      obtain here | old := s.listed g mem
      · rw [recycled] at here
        obtain same | here := List.mem_cons.mp here
        · exact .inr (.inr same)
        · exact .inl here
      · exact .inr (.inl old)
    · have next := allocate_eq_frameFrom h none
      refine ⟨s.limit, fun g low high => ?_, fun g mem => ?_⟩
      · rw [next] at high
        rw [more, next]
        exact (lt_or_eq_frameFrom high).imp_left (s.pool g low)
      · rw [more]
        exact (s.listed g mem).imp_right .inl

theorem give (s : Spent start past listed history r) (h : r.release f = (dropped, r')) :
    Spent start past listed (history ++ [.give f dropped]) r' := by
  obtain ⟨-, -, rfl⟩ | ⟨-, -, rfl⟩ := release_cases h
  · refine ⟨s.limit, by simpa using s.pool, fun g mem => ?_⟩
    rw [handedOut_append_give]
    exact (s.listed g mem).imp (List.mem_cons_of_mem f) id
  · exact ⟨s.limit, by simpa using s.pool, by simpa using s.listed⟩

/-- When a frame is refused, all frames were handed out that end before the pool does. -/
theorem mem_handedOut_of_refused (s : Spent start past listed history r)
    (refused : r.allocate.1 = none) (low : start ≤ f.start) (high : f.start + pageSize < past) :
    f ∈ handedOut history := by
  have reached : past ≤ (frameFrom r.next).start + pageSize :=
    s.limit ▸ (allocate_none_iff_end.mp refused).2
  have before : f.start < (frameFrom r.next).start := by omega
  obtain below | rfl := lt_or_eq_frameFrom (Nat.lt_add_right pageSize before)
  · exact s.pool f low below
  · exact absurd before (Nat.lt_irrefl _)

end Spent
end FrameReserve

namespace PagingMachine

open FrameReserve

variable {m u v : PagingMachine} {history : List FrameCall} {start past : Nat}

/-- Frames are taken and given back, any frame at any time: the calls made, the first one first. -/
inductive Traffic (m : PagingMachine) : List FrameCall → PagingMachine → Prop where
  | refl : Traffic m [] m
  | take {history u answer v} (run : Traffic m history u)
      (call : allocateFrame u = (answer, v)) : Traffic m (history ++ [.take answer]) v
  | give {history u f dropped v} (run : Traffic m history u)
      (call : releaseFrame f u = (dropped, v)) : Traffic m (history ++ [.give f dropped]) v

theorem Traffic.spent (run : Traffic m history u) :
    Spent m.reserve.next m.reserve.limit m.reserve.recycled history u.reserve := by
  induction run with
  | refl => exact .first _
  | take _ call ih => exact ih.take (allocate_of_allocateFrame call)
  | give _ call ih => exact ih.give (release_of_releaseFrame call)

/-- A machine can be asked for any number of frames, and only hands out what was there to reuse and
what ends before the pool does. -/
theorem exists_traffic_draw (m : PagingMachine) (count : Nat) :
    ∃ history, Traffic m history { m with reserve := m.reserve.draw count } ∧
      ∀ f ∈ handedOut history,
        f ∈ m.reserve.recycled ∨ f.start + pageSize < m.reserve.limit := by
  induction count with
  | zero => exact ⟨[], .refl, nofun⟩
  | succ count ih =>
    obtain ⟨history, run, origin⟩ := ih
    have call : allocateFrame { m with reserve := m.reserve.draw count } =
        ((m.reserve.draw count).allocate.1, { m with reserve := m.reserve.draw (count + 1) }) := by
      rw [draw_succ]
      rfl
    refine ⟨_, run.take call, fun f mem => ?_⟩
    rw [handedOut_append_take, List.mem_append, Option.mem_toList] at mem
    obtain old | new := mem
    · exact origin f old
    obtain ⟨rest, recycled, -⟩ | ⟨-, -, high, -⟩ := allocate_cases (Prod.ext new rfl)
    · refine .inl ((recycled_draw count m.reserve).subset ?_)
      rw [recycled]
      exact List.mem_cons_self
    · rw [limit_draw] at high
      exact .inr high

/-- So it can be asked until it refuses. -/
theorem exists_traffic_refused (m : PagingMachine) :
    ∃ history u, Traffic m history u ∧ (allocateFrame u).1 = none ∧
      ∀ f ∈ handedOut history,
        f ∈ m.reserve.recycled ∨ f.start + pageSize < m.reserve.limit := by
  obtain ⟨history, run, origin⟩ := exists_traffic_draw m m.reserve.deliverable
  refine ⟨history, _, run, allocate_none_iff.mpr ?_, origin⟩
  rw [deliverable_draw, Nat.sub_self]

/-- The frame lies wholly in the pool from `start` to `past`. -/
def Within (start past : Nat) (f : Frame) : Prop := start ≤ f.start ∧ f.start + pageSize ≤ past

/-- There is no frame to reuse, and every whole frame of the pool was handed out. -/
def UsedUp (start past : Nat) (history : List FrameCall) (u : PagingMachine) : Prop :=
  u.reserve.recycled = [] ∧ ∀ f, Within start past f → f ∈ handedOut history

/-- However frames are taken and given back once memory has been set up, a frame is refused only if
there is none to reuse and all whole frames of the pool were handed out, but for one that ends where
the pool does. So the pool is always used up exactly if it does not end with a whole frame, unless
this one was there to reuse from the start. -/
theorem pool_used_up_iff {offset : Option Nat} {regions : List MemoryRegion} {notice : Notice}
    {booted : PagingMachine} (init : m.init offset regions = (.ok notice, booted)) :
    ∃ start past, choosePool regions = .ok (start, past) ∧
      (∀ history u, Traffic booted history u → (allocateFrame u).1 = none →
        u.reserve.recycled = [] ∧
          ∀ f, Within start past f → f.start + pageSize ≠ past → f ∈ handedOut history) ∧
      ((∀ history u, Traffic booted history u → (allocateFrame u).1 = none →
          UsedUp start past history u) ↔
        ∀ f, Within start past f → f.start + pageSize = past → f ∈ m.reserve.recycled) := by
  obtain ⟨start, past, chosen, reserve⟩ := reserve_of_init init
  have spent {history : List FrameCall} {u : PagingMachine} (run : Traffic booted history u) :
      Spent start past m.reserve.recycled history u.reserve := by
    simpa only [reserve] using run.spent
  have others (history : List FrameCall) (u : PagingMachine) (run : Traffic booted history u)
      (refused : (allocateFrame u).1 = none) : u.reserve.recycled = [] ∧
        ∀ f, Within start past f → f.start + pageSize ≠ past → f ∈ handedOut history :=
    ⟨(allocate_none_iff_end.mp refused).1, fun f whole inner =>
      (spent run).mem_handedOut_of_refused refused whole.1 (Nat.lt_of_le_of_ne whole.2 inner)⟩
  refine ⟨start, past, chosen, others, fun usedUp f whole last => ?_,
    fun listed history u run refused => ?_⟩
  · -- If frames are only taken, one that ends with the pool can only come from the list.
    obtain ⟨history, u, run, refused, origin⟩ := exists_traffic_refused booted
    rw [reserve] at origin
    obtain old | high := origin f ((usedUp history u run refused).2 f whole)
    · exact old
    · exact absurd last (Nat.ne_of_lt high)
  · obtain ⟨none, inner⟩ := others history u run refused
    refine ⟨none, fun f whole => ?_⟩
    by_cases last : f.start + pageSize = past
    · obtain here | out := (spent run).listed f (listed f whole last)
      · rw [none] at here
        cases here
      · exact out
    · exact inner f whole last

/-- A machine whose pool has two whole frames and ends with the second one. -/
def twoFrames : Except PoolError Notice × PagingMachine :=
  PagingMachine.init (some 0) [⟨0x1000000, 0x1002000, true, by decide⟩] {}

/-- After the first frame the second one is refused, although it was never handed out. -/
theorem last_frame_refused :
    twoFrames.1 = .ok (.info
      "memory: frame pool 0x1000000..0x1002000, physical window at 0x0") ∧
      ∃ u, Traffic twoFrames.2 [.take (some ⟨0x1000⟩)] u ∧ (allocateFrame u).1 = none ∧
        ¬ UsedUp 0x1000000 0x1002000 [.take (some ⟨0x1000⟩)] u := by
  have call : allocateFrame twoFrames.2 = (some ⟨0x1000⟩, (allocateFrame twoFrames.2).2) :=
    Prod.ext (by decide +kernel) rfl
  refine ⟨by decide +kernel, _, Traffic.refl.take call, by decide +kernel, fun usedUp => ?_⟩
  exact absurd (usedUp.2 ⟨0x1001⟩ (by unfold Within; decide)) (by decide)

/-- A machine whose pool goes on for a byte after two whole frames. -/
def twoFramesAndMore : Except PoolError Notice × PagingMachine :=
  PagingMachine.init (some 0) [⟨0x1000000, 0x1002001, true, by decide⟩] {}

/-- Here both frames are handed out before one is refused. -/
theorem pool_used_up_iff_twoFramesAndMore :
    twoFramesAndMore.1 = .ok (.info
      "memory: frame pool 0x1000000..0x1002001, physical window at 0x0") ∧
      ∃ u, Traffic twoFramesAndMore.2 [.take (some ⟨0x1000⟩), .take (some ⟨0x1001⟩)] u ∧
        (allocateFrame u).1 = none ∧
        UsedUp 0x1000000 0x1002001 [.take (some ⟨0x1000⟩), .take (some ⟨0x1001⟩)] u := by
  have ready : twoFramesAndMore.1 = .ok (.info
      "memory: frame pool 0x1000000..0x1002001, physical window at 0x0") := by decide +kernel
  have first : allocateFrame twoFramesAndMore.2 =
      (some ⟨0x1000⟩, (allocateFrame twoFramesAndMore.2).2) := Prod.ext (by decide +kernel) rfl
  have second : allocateFrame (allocateFrame twoFramesAndMore.2).2 =
      (some ⟨0x1001⟩, (allocateFrame (allocateFrame twoFramesAndMore.2).2).2) :=
    Prod.ext (by decide +kernel) rfl
  have run := (Traffic.refl.take first).take second
  have refused : (allocateFrame
      (allocateFrame (allocateFrame twoFramesAndMore.2).2).2).1 = none := by decide +kernel
  obtain ⟨start, past, chosen, -, usedUp⟩ := pool_used_up_iff (Prod.ext ready rfl)
  obtain ⟨rfl, rfl⟩ : 0x1000000 = start ∧ 0x1002001 = past :=
    Prod.mk.inj (Except.ok.inj chosen)
  have none_last (f : Frame) (_ : Within 0x1000000 0x1002001 f)
      (last : f.start + pageSize = 0x1002001) : f ∈ ({} : PagingMachine).reserve.recycled := by
    rw [Frame.start, pageSize] at last
    omega
  exact ⟨ready, _, run, refused, usedUp.mpr none_last _ _ run refused⟩

end PagingMachine
end KernelCore
