import KernelCore.Proofs.TableGrowth

/-!
# How many frames are left

A reserve delivers the frames that were given back and then those of the pool, one at a time, until
it is used up. Mapping a page draws as many frames from it as there are tables lacking on the way to
the page, or all that are left if those are fewer.
-/
namespace KernelCore

namespace FrameReserve

/-- How many frames can still be handed out: those given back, and those of the pool that end below
its last byte. -/
def deliverable (r : FrameReserve) : Nat :=
  r.recycled.length + ((r.limit - 1) / pageSize - (frameFrom r.next).number)

variable {r r' : FrameReserve} {f : Frame}

/-- A frame is refused if there is none to reuse and the pool would end with it or in it. -/
theorem allocate_none_iff_end : r.allocate.1 = none ↔
    r.recycled = [] ∧ r.limit ≤ (frameFrom r.next).start + pageSize := by
  rw [allocate]
  split
  · rename_i recycled
    simp [recycled]
  · rename_i none
    by_cases used : r.limit ≤ (frameFrom r.next).start + pageSize <;> simp [used, none]

theorem allocate_none_iff : r.allocate.1 = none ↔ r.deliverable = 0 := by
  rw [allocate_none_iff_end, deliverable, Nat.add_eq_zero_iff, List.length_eq_zero_iff]
  refine and_congr_right fun _ => ?_
  rw [Frame.start, pageSize]
  omega

theorem limit_allocate (r : FrameReserve) : r.allocate.2.limit = r.limit := by
  rw [allocate]
  split
  · rfl
  · dsimp only
    split <;> rfl

/-- A frame of the pool is the first one that starts in what is left of it. -/
theorem allocate_eq_frameFrom (h : r.allocate = (some f, r')) (none : r.recycled = []) :
    f = frameFrom r.next := by
  rw [allocate, none] at h
  dsimp only at h
  split at h
  · cases h
  · exact (Option.some.inj (Prod.mk.inj h).1).symm

theorem deliverable_allocate (h : r.allocate = (some f, r')) :
    r'.deliverable + 1 = r.deliverable := by
  obtain ⟨rest, recycled, rfl⟩ | ⟨none, -, high, rfl⟩ := allocate_cases h
  · simp only [deliverable, recycled, List.length_cons]
    omega
  · rw [allocate_eq_frameFrom h none] at high ⊢
    simp only [deliverable, none, List.length_nil, frameFrom, Frame.start, pageSize] at high ⊢
    omega

/-- A frame that is given back can be handed out again, if there is room to keep it. -/
theorem deliverable_release (r : FrameReserve) (f : Frame) : (r.release f).2.deliverable +
    (if (r.release f).1.isSome then 1 else 0) = r.deliverable + 1 := by
  rw [release]
  split
  · simp only [deliverable, List.length_cons, Option.isSome_none, Bool.false_eq_true, if_false]
    omega
  · rfl

/-- The reserve after it was asked for so many frames. -/
def draw : Nat → FrameReserve → FrameReserve
  | 0, r => r
  | count + 1, r => draw count r.allocate.2

theorem draw_of_none (h : r.allocate.1 = none) (count : Nat) : draw count r = r := by
  have same : r.allocate.2 = r := allocate_none (Prod.ext h rfl)
  induction count with
  | zero => rfl
  | succ count ih => rw [draw, same, ih]

theorem draw_of_some (h : r.allocate = (some f, r')) (count : Nat) :
    draw (count + 1) r = draw count r' := by rw [draw, h]

theorem draw_succ (count : Nat) (r : FrameReserve) :
    draw (count + 1) r = (draw count r).allocate.2 := by
  induction count generalizing r with
  | zero => rfl
  | succ count ih => exact ih r.allocate.2

theorem limit_draw (count : Nat) (r : FrameReserve) : (draw count r).limit = r.limit := by
  induction count generalizing r with
  | zero => rfl
  | succ count ih => exact (ih r.allocate.2).trans r.limit_allocate

theorem deliverable_draw (count : Nat) (r : FrameReserve) :
    (draw count r).deliverable = r.deliverable - count := by
  induction count generalizing r with
  | zero => rfl
  | succ count ih =>
    rcases ha : r.allocate with ⟨_ | f, r'⟩
    · have none : r.allocate.1 = none := congrArg Prod.fst ha
      rw [draw_of_none none, allocate_none_iff.mp none, Nat.zero_sub]
    · have one := deliverable_allocate ha
      rw [draw_of_some ha, ih]
      omega

/-- What is drawn from the frames given back is drawn in their order. -/
theorem recycled_draw (count : Nat) (r : FrameReserve) :
    (draw count r).recycled <:+ r.recycled := by
  induction count generalizing r with
  | zero => exact List.suffix_refl _
  | succ count ih =>
    rcases ha : r.allocate with ⟨_ | f, r'⟩
    · exact ⟨[], congrArg recycled (draw_of_none (congrArg Prod.fst ha) (count + 1))⟩
    · rw [draw_of_some ha]
      refine (ih r').trans ?_
      obtain ⟨rest, recycled, rfl⟩ | ⟨-, -, -, rfl⟩ := allocate_cases ha
      · rw [recycled]
        exact List.suffix_cons f rest
      · exact List.suffix_refl _

end FrameReserve

namespace PageTable

/-- How many tables are lacking on the way to a page, below a table so many levels above the last.
Below a large page none is. -/
def lacking (m : PhysicalMemory) (page : Page) : (below : Nat) → (table : Frame) → Nat
  | 0, _ => 0
  | below + 1, table =>
    let e := m.entry table (index page (below + 1))
    if e = 0 then below + 1
    else match link? e with
      | some f => lacking m page below f
      | none => 0

variable {r r' : FrameReserve} {m m' : PhysicalMemory} {page : Page} {below : Nat}
  {table f frame : Frame} {i : Fin tableLength} {user : Bool}

theorem lacking_of_link (link : link? (m.entry table (index page (below + 1))) = some f) :
    lacking m page (below + 1) table = lacking m page below f := by
  simp only [lacking, link, (link?_eq_some link).1, if_false]

theorem lacking_of_unused (unused : m.entry table (index page (below + 1)) = 0) :
    lacking m page (below + 1) table = below + 1 := by
  simp only [lacking, unused, if_true]

/-- In an empty table the way to a page ends. -/
theorem lacking_of_empty (empty : ∀ i, m.entry f i = 0) (page : Page) (below : Nat) :
    lacking m page below f = below := by
  cases below with
  | zero => rfl
  | succ below => exact lacking_of_unused (empty _)

/-- Flags that are added to entries in use make up for no table. -/
theorem lacking_set_gains {e : UInt64} (used : m.entry table i ≠ 0)
    (gains : Gains (m.entry table i) e) (page : Page) (below : Nat) (t : Frame) :
    lacking (m.set table i e) page below t = lacking m page below t := by
  induction below generalizing t with
  | zero => rfl
  | succ below ih =>
    by_cases here : t = table ∧ index page (below + 1) = i
    · obtain ⟨rfl, rfl⟩ := here
      simp only [lacking, PhysicalMemory.entry_set_self, gains.ne_zero used, used,
        gains.link?_eq used, if_false, ih]
    · simp only [lacking, entry_set, if_neg here, ih]

/-- Whether a page can be mapped or not, its way gets the tables that it lacks as far as there are
frames for them. -/
theorem mapBelow_draws {answer : Except MapError Unit}
    (h : mapBelow page frame (mappingFlags user) below table m r = (answer, m', r')) :
    r' = r.draw (lacking m page below table) := by
  induction below generalizing table m r with
  | zero =>
    rw [mapBelow] at h
    split at h
    · obtain ⟨-, -, rfl⟩ : _ ∧ _ ∧ _ := by simpa using h
      rfl
    · obtain ⟨-, -, rfl⟩ : _ ∧ _ ∧ _ := by simpa using h
      rfl
  | succ below ih =>
    obtain ⟨f, m₁, r₁, entered, rest⟩ | ⟨e, entered, -⟩ := mapBelow_succ_cases h
    · obtain ⟨used, rfl, rfl, leads⟩ | ⟨unused, g, taken, rfl, here⟩ | ⟨-, -, -, no⟩ :=
        enter_cases entered
      · rw [ih rest, lacking_set_gains used (gains_or_mappingFlags _ user),
          lacking_of_link ((leads f).mp rfl)]
      · obtain rfl := Except.ok.inj here
        have empty (j : Fin tableLength) : ((m.set table (index page (below + 1))
            (entryFor f (mappingFlags user))).clearTable f).entry f j = 0 := by
          rw [entry_clearTable, if_pos rfl]
        rw [ih rest, lacking_of_empty empty, lacking_of_unused unused,
          FrameReserve.draw_of_some taken]
      · cases no
    · obtain ⟨used, -, rfl, leads⟩ | ⟨-, f, -, -, no⟩ | ⟨unused, -, same, -⟩ := enter_cases entered
      · -- A large page is in the way.
        have none : link? (m.entry table (index page (below + 1))) = none :=
          Option.eq_none_iff_forall_ne_some.mpr fun f link => by cases (leads f).mpr link
        simp only [lacking, used, none, if_false]
        rfl
      · cases no
      · have none : r.allocate.1 = none := by
          rcases ha : r.allocate with ⟨_ | f, r₁⟩
          · rfl
          · simp [enter, unused, ha] at entered
        exact same.trans (FrameReserve.draw_of_none none _).symm

end PageTable
end KernelCore
