import KernelCore.PagingMachine
import Mathlib.Data.List.Induction

/-!
# Which memory becomes the frame pool

The pool is cut out of one usable region, the largest one, the last of several that are equally
large. Only then is the part below the floor taken away. So memory is found unless nothing of this
one region is left, even if other regions have usable memory above the floor.
-/
namespace KernelCore

namespace MemoryRegion

def size (r : MemoryRegion) : Nat := r.past - r.start

/-- There is memory of the region at or above the floor of the frame pool. -/
def Reaches (r : MemoryRegion) : Prop := max r.start FrameReserve.floor < r.past

instance (r : MemoryRegion) : Decidable r.Reaches := inferInstanceAs (Decidable (_ < _))

/-- A region without such memory is no larger than the floor is high. -/
theorem size_le_of_not_reaches {r : MemoryRegion} (low : ¬ r.Reaches) :
    r.size ≤ FrameReserve.floor := by
  rw [Reaches] at low
  rw [size]
  omega

end MemoryRegion

namespace FrameReserve

variable {regions : List MemoryRegion} {r s : MemoryRegion} {start past : Nat}

/-- No region of the list is larger, and none that comes later is as large. -/
def LargestIn (regions : List MemoryRegion) (r : MemoryRegion) : Prop :=
  ∃ before after, regions = before ++ r :: after ∧
    (∀ s ∈ before, s.size ≤ r.size) ∧ ∀ s ∈ after, s.size < r.size

theorem LargestIn.mem (h : LargestIn regions r) : r ∈ regions := by
  obtain ⟨before, after, rfl, -⟩ := h
  exact List.mem_append_right _ List.mem_cons_self

theorem LargestIn.mem_of_filter (h : LargestIn (regions.filter MemoryRegion.usable) r) :
    r ∈ regions := (List.mem_filter.mp h.mem).1

theorem LargestIn.usable (h : LargestIn (regions.filter MemoryRegion.usable) r) :
    r.usable = true := (List.mem_filter.mp h.mem).2

theorem LargestIn.size_le (h : LargestIn regions r) (mem : s ∈ regions) : s.size ≤ r.size := by
  obtain ⟨before, after, rfl, earlier, later⟩ := h
  obtain here | here := List.mem_append.mp mem
  · exact earlier s here
  · obtain rfl | here := List.mem_cons.mp here
    · exact Nat.le_refl _
    · exact Nat.le_of_lt (later s here)

/-- The largest usable region reaches above the floor if some usable region is larger than those
that do not, or larger than the floor is high. -/
theorem LargestIn.reaches (largest : LargestIn (regions.filter MemoryRegion.usable) r)
    (mem : s ∈ regions) (usable : s.usable = true)
    (large : floor < s.size ∨
      ∀ r ∈ regions, r.usable = true → ¬ r.Reaches → r.size < s.size) : r.Reaches := by
  by_contra low
  have le : s.size ≤ r.size := largest.size_le (List.mem_filter.mpr ⟨mem, usable⟩)
  have lt : r.size < s.size := by
    obtain high | larger := large
    · exact Nat.lt_of_le_of_lt (MemoryRegion.size_le_of_not_reaches low) high
    · exact larger r largest.mem_of_filter largest.usable low
  omega

/-- A region that is added in the end is compared with the largest one so far. -/
theorem LargestIn.append (h : LargestIn regions r) (s : MemoryRegion) :
    LargestIn (regions ++ [s]) (larger r s) := by
  have all (t : MemoryRegion) (mem : t ∈ regions) : t.size ≤ r.size := h.size_le mem
  obtain ⟨before, after, rfl, earlier, later⟩ := h
  rw [larger]
  split
  · rename_i high
    exact ⟨_, [], rfl, fun t mem => Nat.le_trans (all t mem) high, nofun⟩
  · rename_i low
    refine ⟨before, after ++ [s], by simp, earlier, fun t mem => ?_⟩
    obtain mem | mem := List.mem_append.mp mem
    · exact later t mem
    · obtain rfl := List.mem_singleton.mp mem
      exact Nat.not_le.mp low

theorem largestIn_foldl (r : MemoryRegion) (regions : List MemoryRegion) :
    LargestIn (r :: regions) (regions.foldl larger r) := by
  induction regions using List.reverseRecOn with
  | nil => exact ⟨[], [], rfl, nofun, nofun⟩
  | append_singleton regions s ih =>
    rw [List.foldl_append]
    exact ih.append s

/-- There is only one such region. -/
theorem LargestIn.unique (h : LargestIn regions r) (h' : LargestIn regions s) : r = s := by
  obtain ⟨before, after, rfl, earlier, later⟩ := h
  obtain ⟨before', after', same, earlier', later'⟩ := h'
  obtain ⟨between, rfl, here⟩ | ⟨between, rfl, here⟩ := List.append_eq_append_iff.mp same
  · cases between with
    | nil => exact (List.cons.inj here).1
    | cons t between =>
      obtain ⟨rfl, rfl⟩ := List.cons.inj here
      have le := earlier' r (by simp)
      have lt := later s (by simp)
      omega
  · cases between with
    | nil => exact (List.cons.inj here).1.symm
    | cons t between =>
      obtain ⟨rfl, rfl⟩ := List.cons.inj here
      have le := earlier s (by simp)
      have lt := later' r (by simp)
      omega

theorem largest?_eq_some_iff : largest? regions = some r ↔ LargestIn regions r := by
  constructor
  · intro h
    cases regions with
    | nil => cases h
    | cons s regions =>
      obtain rfl := Option.some.inj h
      exact largestIn_foldl s regions
  · intro h
    cases regions with
    | nil => cases h.mem
    | cons s regions => exact congrArg some ((largestIn_foldl s regions).unique h)

theorem largest?_eq_none_iff : largest? regions = none ↔ regions = [] := by
  cases regions <;> simp [largest?]

/-- A pool is chosen in one of three ways. -/
theorem choosePool_cases (regions : List MemoryRegion) :
    ((∀ r ∈ regions, r.usable = false) ∧ choosePool regions = .error .noUsableMemory) ∨
    ∃ r, LargestIn (regions.filter MemoryRegion.usable) r ∧
      (¬ r.Reaches ∧ choosePool regions = .error .belowFloor ∨
        r.Reaches ∧ choosePool regions = .ok (max r.start floor, r.past)) := by
  rw [choosePool]
  cases largest : largest? (regions.filter MemoryRegion.usable) with
  | none =>
    have none := largest?_eq_none_iff.mp largest
    exact .inl ⟨by simpa [List.filter_eq_nil_iff] using none, rfl⟩
  | some r =>
    refine .inr ⟨r, largest?_eq_some_iff.mp largest, ?_⟩
    by_cases reaches : r.Reaches
    · exact .inr ⟨reaches, if_neg (Nat.not_le.mpr reaches)⟩
    · exact .inl ⟨reaches, if_pos (Nat.not_lt.mp reaches)⟩

/-- The pool is what a usable region has above the floor. -/
theorem choosePool_ok (h : choosePool regions = .ok (start, past)) :
    ∃ r ∈ regions, r.usable = true ∧ start = max r.start floor ∧ past = r.past := by
  obtain ⟨-, chosen⟩ | ⟨r, largest, ⟨-, chosen⟩ | ⟨-, chosen⟩⟩ := choosePool_cases regions
  · cases chosen.symm.trans h
  · cases chosen.symm.trans h
  · cases chosen.symm.trans h
    exact ⟨r, largest.mem_of_filter, largest.usable, rfl, rfl⟩

end FrameReserve

namespace PagingMachine

open FrameReserve

variable {m u : PagingMachine} {regions : List MemoryRegion}

/-- The reserve is the pool chosen from the memory map. -/
theorem reserve_of_init {offset : Option Nat} {notice : Notice}
    (init : m.init offset regions = (.ok notice, u)) :
    ∃ start past, choosePool regions = .ok (start, past) ∧
      u.reserve = { m.reserve with next := start, limit := past } := by
  unfold PagingMachine.init at init
  split at init
  · exact absurd (congrArg Prod.fst init) nofun
  · split at init
    · exact absurd (congrArg Prod.fst init) nofun
    · rename_i start past chosen
      exact ⟨start, past, chosen, (congrArg (fun c => c.2.reserve) init).symm⟩

/-- The report on the pool that a region leaves. -/
def poolNotice (r : MemoryRegion) (offset : Nat) : Notice :=
  .info ("memory: frame pool " ++ hex (max r.start floor) ++ ".." ++ hex r.past ++
    ", physical window at " ++ hex offset)

/-- Memory is set up in one of three ways, as the pool is chosen. -/
theorem init_cases (m : PagingMachine) (offset : Nat) (regions : List MemoryRegion) :
    ((∀ r ∈ regions, r.usable = false) ∧ m.init (some offset) regions =
      (.error .noUsableMemory, { m with physicalOffset := offset })) ∨
    ∃ r, LargestIn (regions.filter MemoryRegion.usable) r ∧
      (¬ r.Reaches ∧ m.init (some offset) regions =
        (.error .belowFloor, { m with physicalOffset := offset }) ∨
      r.Reaches ∧ m.init (some offset) regions = (.ok (poolNotice r offset),
        { m with
          physicalOffset := offset
          reserve := { m.reserve with next := max r.start floor, limit := r.past } })) := by
  rw [init]
  obtain ⟨none, chosen⟩ | ⟨r, largest, ⟨low, chosen⟩ | ⟨reaches, chosen⟩⟩ :=
    choosePool_cases regions
  · exact .inl ⟨none, by rw [chosen]⟩
  · exact .inr ⟨r, largest, .inl ⟨low, by rw [chosen]⟩⟩
  · exact .inr ⟨r, largest, .inr ⟨reaches, by rw [chosen]; rfl⟩⟩

/-- That there is no usable memory is said only if no region is usable. That it lies below the floor
is said only if the largest usable region does, and otherwise the pool is what that region has above
the floor. So there is a pool if some usable region is larger than all those below the floor, or
larger than the floor is high. Without a pool, only the place of physical memory is kept. -/
theorem pool_of_largest_region (m : PagingMachine) (offset : Nat) (regions : List MemoryRegion) :
    ((m.init (some offset) regions).1 = .error .noUsableMemory ↔
      ∀ r ∈ regions, r.usable = false) ∧
    ((m.init (some offset) regions).1 = .error .belowFloor ↔
      ∃ r, LargestIn (regions.filter MemoryRegion.usable) r ∧ ¬ r.Reaches) ∧
    (∀ notice u, m.init (some offset) regions = (.ok notice, u) ↔
      ∃ r, LargestIn (regions.filter MemoryRegion.usable) r ∧ r.Reaches ∧
        notice = poolNotice r offset ∧
        u = { m with
              physicalOffset := offset
              reserve := { m.reserve with next := max r.start floor, limit := r.past } }) ∧
    (∀ s ∈ regions, s.usable = true →
      (floor < s.size ∨ ∀ r ∈ regions, r.usable = true → ¬ r.Reaches → r.size < s.size) →
        ∃ notice, (m.init (some offset) regions).1 = .ok notice) ∧
    ∀ e u, m.init (some offset) regions = (.error e, u) →
      e ≠ .noPhysicalWindow ∧ u = { m with physicalOffset := offset } := by
  obtain ⟨none, answer⟩ | ⟨r, largest, found⟩ := init_cases m offset regions
  · have no (r : MemoryRegion) : ¬ LargestIn (regions.filter MemoryRegion.usable) r :=
      fun largest => absurd largest.usable (by simp [none r largest.mem_of_filter])
    rw [answer]
    refine ⟨iff_of_true rfl none, iff_of_false nofun fun ⟨r, largest, _⟩ => no r largest,
      fun notice u => iff_of_false nofun fun ⟨r, largest, _⟩ => no r largest,
      fun s mem usable => absurd usable (by simp [none s mem]), fun e u same => ?_⟩
    cases same
    exact ⟨nofun, rfl⟩
  have some : ¬ ∀ r ∈ regions, r.usable = false := fun none =>
    absurd largest.usable (by simp [none r largest.mem_of_filter])
  obtain ⟨low, answer⟩ | ⟨reaches, answer⟩ := found
  · rw [answer]
    refine ⟨iff_of_false nofun some, iff_of_true rfl ⟨r, largest, low⟩,
      fun notice u => iff_of_false nofun fun ⟨s, other, reaches, _⟩ => ?_,
      fun s mem usable large => absurd (largest.reaches mem usable large) low, fun e u same => ?_⟩
    · rw [largest.unique other] at low
      exact low reaches
    · cases same
      exact ⟨nofun, rfl⟩
  · rw [answer]
    refine ⟨iff_of_false nofun some, iff_of_false nofun fun ⟨s, other, low⟩ => ?_,
      fun notice u => ⟨fun same => ?_, fun ⟨s, other, _, notice, made⟩ => ?_⟩,
      fun _ _ _ _ => ⟨_, rfl⟩, nofun⟩
    · rw [largest.unique other] at reaches
      exact low reaches
    · obtain ⟨told, rfl⟩ := Prod.mk.inj same
      exact ⟨r, largest, reaches, (Except.ok.inj told).symm, rfl⟩
    · rw [notice, made, largest.unique other]

/-- Usable memory on both sides of the floor, most of it below. -/
def lowAndHigh : List MemoryRegion :=
  [⟨0, 0x1000000, true, by decide⟩, ⟨0x2000000, 0x2100000, true, by decide⟩]

/-- There is usable memory above the floor, and it is said to lie below. -/
theorem high_memory_missed :
    (∀ r ∈ lowAndHigh, r.start ≤ r.past) ∧
      (PagingMachine.init (some 0) lowAndHigh {}).1 = .error .belowFloor ∧
      ∃ r ∈ lowAndHigh, r.usable = true ∧ floor ≤ r.start ∧ r.start < r.past := by
  decide +kernel

/-- With a larger region above the floor the pool is found there. -/
theorem pool_of_largest_region_more :
    ∃ notice, (PagingMachine.init (some 0)
      (⟨0x100000, 0x1000000, true, by decide⟩ :: ⟨0x4000000, 0x8000000, true, by decide⟩ ::
        lowAndHigh) {}).1 = .ok notice := by
  obtain ⟨-, -, -, found, -⟩ := pool_of_largest_region {} 0
    (⟨0x100000, 0x1000000, true, by decide⟩ :: ⟨0x4000000, 0x8000000, true, by decide⟩ ::
      lowAndHigh)
  exact found ⟨0x4000000, 0x8000000, true, by decide⟩ (by simp) rfl (.inl (by decide))

end PagingMachine
end KernelCore
