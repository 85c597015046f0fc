import KernelCore.Proofs.FrameCustody

/-!
# The range of physical addresses

The kernel computes its frames in words of sixty-four bits, where a sum can wrap, and names a frame
by the word of the address it starts at. As long as the pool ends about where the physical addresses
do, that reserve answers every call as the one in numbers does. The memory map keeps usable memory
in that range, and however frames are taken and given back, the pool ends where it did. So nothing
wraps from boot on, and every frame handed out has a physical address.
-/
namespace KernelCore

/-- The word that names a frame. -/
def Frame.word (f : Frame) : UInt64 := .ofNat f.start

/-- The size of a region, as words are subtracted. -/
def MemoryRegion.wordSize (r : MemoryRegion) : UInt64 := .ofNat r.past - .ofNat r.start

/-- The frame reserve as the kernel keeps it. -/
structure WordReserve where
  next : UInt64
  limit : UInt64
  recycled : List UInt64

namespace WordReserve

/-- The larger of two regions, the second if they are equally large. -/
def larger (r s : MemoryRegion) : MemoryRegion := if r.wordSize ≤ s.wordSize then s else r

/-- The reserve for a memory map, as `FrameReserve.choosePool` has it in numbers. -/
def choose (regions : List MemoryRegion) : Except PoolError WordReserve :=
  match regions.filter MemoryRegion.usable with
  | [] => .error .noUsableMemory
  | r :: rs =>
    let r := rs.foldl larger r
    let start := max (.ofNat r.start) (.ofNat FrameReserve.floor)
    if .ofNat r.past ≤ start then .error .belowFloor else .ok ⟨start, .ofNat r.past, []⟩

/-- The first multiple of the page size at or above an address. -/
def roundUp (a : UInt64) : UInt64 := (a + .ofNat (pageSize - 1)) &&& ~~~ .ofNat (pageSize - 1)

def allocate (r : WordReserve) : Option UInt64 × WordReserve :=
  match r.recycled with
  | a :: recycled => (some a, { r with recycled })
  | [] =>
    let a := roundUp r.next
    let next := a + .ofNat pageSize
    if r.limit ≤ next then (none, r) else (some a, { r with next })

def release (r : WordReserve) (a : UInt64) : Option UInt64 × WordReserve :=
  if r.recycled.length < FrameReserve.recycleCapacity then
    (none, { r with recycled := a :: r.recycled })
  else (some a, r)

/-- The calls are made on a reserve in words and answered as listed, the first one first. -/
inductive Serves (r : WordReserve) : List FrameCall → WordReserve → Prop where
  | refl : Serves r [] r
  | take {history s answer s'} (run : Serves r history s)
      (call : s.allocate = (answer.map Frame.word, s')) :
      Serves r (history ++ [.take answer]) s'
  | give {history s f dropped s'} (run : Serves r history s)
      (call : s.release f.word = (dropped.map Frame.word, s')) :
      Serves r (history ++ [.give f dropped]) s'

/-- Clearing the bits of an offset in a page leads down to the start of the page. -/
theorem toNat_and_not_offset (a : UInt64) :
    (a &&& ~~~ .ofNat (pageSize - 1)).toNat = a.toNat / pageSize * pageSize := by
  have offset : (UInt64.ofNat (pageSize - 1)).toNat = 2 ^ 12 - 1 := rfl
  have size : pageSize = 2 ^ 12 := rfl
  have words : UInt64.size = 2 ^ 64 := rfl
  apply Nat.eq_of_testBit_eq
  intro i
  rw [UInt64.toNat_and, UInt64.toNat_not, offset, size, words, Nat.sub_right_comm,
    Nat.sub_sub, Nat.testBit_and, Nat.testBit_two_pow_sub_succ (by decide),
    Nat.testBit_two_pow_sub_one, Nat.testBit_mul_two_pow, Nat.testBit_div_two_pow]
  by_cases high : 12 ≤ i
  · rw [Nat.sub_add_cancel high, decide_eq_true high, decide_eq_false (Nat.not_lt.mpr high)]
    -- A word has no bit past the sixty-fourth.
    cases set : a.toNat.testBit i with
    | false => rfl
    | true =>
      have word : i < 64 := (Nat.pow_lt_pow_iff_right (by decide)).mp
        (Nat.lt_of_le_of_lt (Nat.ge_two_pow_of_testBit set) a.toNat_lt)
      rw [decide_eq_true word]
      rfl
  · rw [decide_eq_false high, decide_eq_true (Nat.not_le.mp high), Bool.not_true, Bool.and_false,
      Bool.and_false, Bool.false_and]

theorem roundUp_ofNat {a : Nat} (h : a + pageSize ≤ UInt64.size) :
    roundUp (.ofNat a) = (FrameReserve.frameFrom a).word := by
  have sum : a + (pageSize - 1) < UInt64.size := by unfold pageSize at *; omega
  have down : (a + (pageSize - 1)) / pageSize * pageSize ≤ a + (pageSize - 1) :=
    Nat.div_mul_le_self ..
  apply UInt64.toNat_inj.mp
  rw [roundUp, toNat_and_not_offset, ← UInt64.ofNat_add, UInt64.toNat_ofNat_of_lt' sum]
  exact (UInt64.toNat_ofNat_of_lt' (Nat.lt_of_le_of_lt down sum)).symm

end WordReserve

namespace MemoryRegion

variable {r : MemoryRegion}

theorem past_lt_size (usable : r.usable = true) : r.past < UInt64.size :=
  Nat.lt_trans (r.addressable usable).2 (by decide)

/-- The size of usable memory is the same in words. -/
theorem wordSize_eq (usable : r.usable = true) : r.wordSize = .ofNat r.size :=
  (UInt64.ofNat_sub (r.addressable usable).1).symm

end MemoryRegion

namespace FrameReserve

variable {r r' : FrameReserve} {f : Frame} {regions : List MemoryRegion} {s t : MemoryRegion}

/-- The reserve in words. -/
def words (r : FrameReserve) : WordReserve :=
  ⟨.ofNat r.next, .ofNat r.limit, r.recycled.map Frame.word⟩

theorem larger_eq_words (hs : s.usable = true) (ht : t.usable = true) :
    WordReserve.larger s t = larger s t := by
  have fits (s : MemoryRegion) (hs : s.usable = true) : s.size < UInt64.size :=
    Nat.lt_of_le_of_lt (Nat.sub_le ..) (s.past_lt_size hs)
  rw [WordReserve.larger, MemoryRegion.wordSize_eq hs, MemoryRegion.wordSize_eq ht, larger]
  exact if_congr (UInt64.ofNat_le_iff_le (fits s hs) (fits t ht)) rfl rfl

theorem usable_larger (hs : s.usable = true) (ht : t.usable = true) :
    (larger s t).usable = true := by
  unfold larger
  split
  · exact ht
  · exact hs

theorem foldl_larger_eq_words (hs : s.usable = true) (usable : ∀ t ∈ regions, t.usable = true) :
    regions.foldl WordReserve.larger s = regions.foldl larger s := by
  induction regions generalizing s with
  | nil => rfl
  | cons t regions ih =>
    obtain ⟨ht, rest⟩ := List.forall_mem_cons.mp usable
    rw [List.foldl_cons, List.foldl_cons, larger_eq_words hs ht]
    exact ih (usable_larger hs ht) rest

theorem ofNat_max {a b : Nat} (ha : a < UInt64.size) (hb : b < UInt64.size) :
    UInt64.ofNat (max a b) = max (.ofNat a) (.ofNat b) := by
  rw [Nat.max_def, apply_ite UInt64.ofNat]
  exact (if_congr (UInt64.ofNat_le_iff_le ha hb) rfl rfl).symm

/-- The pool is chosen in words as it is in numbers. -/
theorem choose_eq_words (regions : List MemoryRegion) : WordReserve.choose regions =
    (choosePool regions).map fun pool => words { next := pool.1, limit := pool.2 } := by
  have usable : ∀ s ∈ regions.filter MemoryRegion.usable, s.usable = true :=
    fun s mem => (List.mem_filter.mp mem).2
  rw [WordReserve.choose, choosePool]
  cases found : regions.filter MemoryRegion.usable with
  | nil => rfl
  | cons s rest =>
    rw [found] at usable
    obtain ⟨hs, hrest⟩ := List.forall_mem_cons.mp usable
    have largest : (rest.foldl larger s).usable = true := usable _ (largestIn_foldl s rest).mem
    have past := MemoryRegion.past_lt_size largest
    have start := Nat.lt_of_le_of_lt ((rest.foldl larger s).addressable largest).1 past
    have bottom : floor < UInt64.size := by decide
    dsimp only [largest?]
    rw [foldl_larger_eq_words hs hrest, ← ofNat_max start bottom,
      if_congr (UInt64.ofNat_le_iff_le past (Nat.max_lt.mpr ⟨start, bottom⟩)) rfl rfl]
    split <;> rfl

theorem start_frameFrom_lt (a : Nat) : (frameFrom a).start < a + pageSize := by
  unfold frameFrom Frame.start pageSize
  dsimp only
  omega

/-- The reserve keeps about within the physical addresses. -/
structure InRange (r : FrameReserve) : Prop where
  next : r.next < physicalLimit + pageSize
  limit : r.limit < physicalLimit + pageSize
  recycled : ∀ f ∈ r.recycled, f.start < physicalLimit

theorem holds_of_allocate (h : r.allocate = (some f, r')) : r.Holds f := by
  obtain ⟨rest, recycled, -⟩ | ⟨-, low, high, -⟩ := allocate_cases h
  · exact .inl (recycled ▸ List.mem_cons_self ..)
  · exact .inr ⟨low, high⟩

namespace InRange

theorem first {start past : Nat} (h : choosePool regions = .ok (start, past)) :
    InRange { next := start, limit := past } := by
  obtain ⟨s, -, usable, rfl, rfl⟩ := choosePool_ok h
  obtain ⟨order, high⟩ := s.addressable usable
  have bottom : floor < physicalLimit + pageSize := by decide
  exact ⟨Nat.max_lt.mpr ⟨Nat.lt_of_le_of_lt order high, bottom⟩, high, nofun⟩

/-- What the reserve can hand out has a physical address. -/
theorem small (h : r.InRange) (holds : r.Holds f) : f.start < physicalLimit := by
  obtain listed | ⟨-, inside⟩ := holds
  · exact h.recycled f listed
  · have limit := h.limit
    omega

theorem take (h : r.InRange) {answer : Option Frame} (call : r.allocate = (answer, r')) :
    r'.InRange := by
  cases answer with
  | none => exact allocate_none call ▸ h
  | some f =>
    obtain ⟨rest, recycled, rfl⟩ | ⟨-, -, high, rfl⟩ := allocate_cases call
    · exact ⟨h.next, h.limit, fun g mem =>
        h.recycled g (recycled ▸ List.mem_cons_of_mem _ mem)⟩
    · exact ⟨Nat.lt_trans high h.limit, h.limit, h.recycled⟩

theorem give {dropped : Option Frame} (h : r.InRange) (physical : f.start < physicalLimit)
    (call : r.release f = (dropped, r')) : r'.InRange := by
  obtain ⟨-, -, rfl⟩ | ⟨-, -, rfl⟩ := release_cases call
  · exact ⟨h.next, h.limit, List.forall_mem_cons.mpr ⟨physical, h.recycled⟩⟩
  · exact h

/-- A frame is handed out in words as it is in numbers. -/
theorem allocate_words (h : r.InRange) :
    r.words.allocate = (r.allocate.1.map Frame.word, r.allocate.2.words) := by
  obtain ⟨next, limit, recycled⟩ := r
  cases recycled with
  | cons f rest => rfl
  | nil =>
    have room : physicalLimit + pageSize + 2 * pageSize < UInt64.size := by decide
    have high : next < physicalLimit + pageSize ∧ limit < physicalLimit + pageSize :=
      ⟨h.next, h.limit⟩
    have near := start_frameFrom_lt next
    have past : (frameFrom next).word + .ofNat pageSize =
        .ofNat ((frameFrom next).start + pageSize) := (UInt64.ofNat_add ..).symm
    have fits : next + pageSize ≤ UInt64.size := by omega
    have reached : UInt64.ofNat limit ≤ .ofNat ((frameFrom next).start + pageSize) ↔
        limit ≤ (frameFrom next).start + pageSize :=
      UInt64.ofNat_le_iff_le (by omega) (by omega)
    simp only [WordReserve.allocate, allocate, words, List.map_nil,
      WordReserve.roundUp_ofNat fits, past, reached]
    split <;> rfl

/-- Such a reserve is orderly if it lists no frame twice and only frames below its pool. -/
theorem orderly (h : r.InRange) (once : r.recycled.Nodup)
    (below : ∀ f ∈ r.recycled, f.start + pageSize ≤ r.next) : r.Orderly where
  once := once
  apart f listed above := absurd (Nat.le_trans (below f listed) above) (by
    unfold pageSize
    omega)
  small _ := h.small

end InRange

theorem release_words (r : FrameReserve) (f : Frame) :
    r.words.release f.word = ((r.release f).1.map Frame.word, (r.release f).2.words) := by
  unfold WordReserve.release release words
  rw [List.length_map]
  split <;> rfl

end FrameReserve

namespace PagingMachine

open FrameReserve

variable {m u booted : PagingMachine} {history : List FrameCall} {held : List Frame}
  {offset : Option Nat} {regions : List MemoryRegion} {notice : Notice}

/-- Whatever is taken and given back, the reserve keeps within the physical addresses, and so do the
frames that are held. -/
theorem Custody.inRange (run : Custody m history held u) (first : m.reserve.InRange) :
    u.reserve.InRange ∧ ∀ f ∈ held, f.start < physicalLimit := by
  induction run with
  | refl => exact ⟨first, nofun⟩
  | take _ call ih =>
    obtain ⟨inRange, small⟩ := ih
    have taken := allocate_of_allocateFrame call
    refine ⟨inRange.take taken, fun f mem => ?_⟩
    obtain old | new := List.mem_append.mp mem
    · exact small f old
    · obtain rfl := Option.mem_toList.mp new
      exact inRange.small (holds_of_allocate taken)
  | give _ holds call ih =>
    obtain ⟨inRange, small⟩ := ih
    exact ⟨inRange.give (small _ holds) (release_of_releaseFrame call),
      fun f mem => small f (List.mem_of_mem_erase mem)⟩

/-- The calls are answered in words as they are in numbers. -/
theorem Custody.serves (run : Custody m history held u) (first : m.reserve.InRange) :
    m.reserve.words.Serves history u.reserve.words := by
  induction run with
  | refl => exact .refl
  | take run call ih =>
    have taken := allocate_of_allocateFrame call
    refine ih.take ?_
    rw [(run.inRange first).1.allocate_words, taken]
  | give _ _ call ih =>
    refine ih.give ?_
    rw [release_words, release_of_releaseFrame call]

/-- However frames are taken and given back once memory has been set up, the reserve in words is set
up alike and answers all calls alike. The reserve hands out no frame twice and only frames with a
physical address, and those are the frames that are held. -/
theorem custody_in_words (unused : m.reserve = {})
    (init : m.init offset regions = (.ok notice, booted)) (run : Custody booted history held u) :
    (∃ first, WordReserve.choose regions = .ok first ∧ first.Serves history u.reserve.words) ∧
      u.reserve.Orderly ∧ ∀ f ∈ held, f.start < physicalLimit := by
  obtain ⟨start, past, chosen, reserve⟩ := reserve_of_init init
  rw [unused] at reserve
  have first : booted.reserve.InRange := reserve ▸ InRange.first chosen
  have accounted := run.accounted (reserve ▸ Accounted.first)
  obtain ⟨inRange, small⟩ := run.inRange first
  refine ⟨⟨booted.reserve.words, ?_, run.serves first⟩, ?_, small⟩
  · rw [choose_eq_words, chosen, reserve]
    rfl
  · exact inRange.orderly (List.nodup_append.mp accounted.once).1 fun f listed =>
      (accounted.inside f (List.mem_append_left _ listed)).2.1

end PagingMachine
end KernelCore
