import KernelCore.Address

/-!
# The frame reserve

Where fresh frames come from: a pool that is used up from its start, and a short list of frames that
were given back, which are handed out first. `choosePool` picks the pool from the memory map of the
boot loader. Usable memory ends about where the physical addresses do, so every frame handed out has
one of them, and no sum or difference taken here leaves the range of words.
-/
namespace KernelCore

/-- Physical memory that the boot loader knows of, from `start` up to `past`. -/
structure MemoryRegion where
  start : Nat
  past : Nat
  usable : Bool
  /-- Usable memory ends less than a page past the physical addresses, so that every whole frame in it
  starts at one of them. -/
  addressable : usable = true → start ≤ past ∧ past < physicalLimit + pageSize
  deriving DecidableEq, Repr

inductive PoolError where
  | noPhysicalWindow
  | noUsableMemory
  | belowFloor
  deriving DecidableEq, Repr

def PoolError.message : PoolError → String
  | .noPhysicalWindow => "bootloader did not map physical memory"
  | .noUsableMemory => "no usable memory found"
  | .belowFloor => "usable memory lies below the frame pool floor"

structure FrameReserve where
  /-- The pool is used up below this address. -/
  next : Nat := 0
  limit : Nat := 0
  /-- Frames that were given back, the last one first. -/
  recycled : List Frame := []
  deriving DecidableEq, Repr

namespace FrameReserve

/-- Frames below this address stay with the boot loader and the kernel. -/
def floor : Nat := 16 * 1024 * 1024

/-- The most frames that are kept for reuse. -/
def recycleCapacity : Nat := 64

/-- The larger of two regions, the second if they are equally large. -/
def larger (r s : MemoryRegion) : MemoryRegion :=
  if r.past - r.start ≤ s.past - s.start then s else r

/-- The largest region of a list, the last one of several. -/
def largest? : List MemoryRegion → Option MemoryRegion
  | [] => none
  | r :: rs => some (rs.foldl larger r)

/-- The pool for a memory map: the largest usable region, without what lies below the floor. -/
def choosePool (regions : List MemoryRegion) : Except PoolError (Nat × Nat) :=
  match largest? (regions.filter MemoryRegion.usable) with
  | none => .error .noUsableMemory
  | some r =>
    let start := max r.start floor
    if r.past ≤ start then .error .belowFloor else .ok (start, r.past)

/-- The first frame that starts at or above an address. -/
def frameFrom (a : Nat) : Frame := ⟨(a + (pageSize - 1)) / pageSize⟩

/-- Hands a frame out. The last frame of the pool stays there. -/
def allocate (r : FrameReserve) : Option Frame × FrameReserve :=
  match r.recycled with
  | f :: recycled => (some f, { r with recycled })
  | [] =>
    let f := frameFrom r.next
    if r.limit ≤ f.start + pageSize then (none, r)
    else (some f, { r with next := f.start + pageSize })

/-- Takes a frame back. The answer is the frame if there is no room to keep it. -/
def release (r : FrameReserve) (f : Frame) : Option Frame × FrameReserve :=
  if r.recycled.length < recycleCapacity then (none, { r with recycled := f :: r.recycled })
  else (some f, r)

theorem length_recycled_release_le {r : FrameReserve} (f : Frame)
    (h : r.recycled.length ≤ recycleCapacity) :
    (r.release f).2.recycled.length ≤ recycleCapacity := by
  unfold release
  split
  · simp only [List.length_cons]; omega
  · exact h

end FrameReserve
end KernelCore
