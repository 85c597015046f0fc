import KernelCore.Proofs.LoadAtomicity

/-!
# Loads that stop the kernel

A word has sixty-four bits, an image has an end, and no page follows the last one of the lower half.
In a guarded load every sum, difference and product of words, every read of the image and every walk
over pages stops the kernel where it goes beyond. It never does so, except in one place: while the
segments are checked, the walk over the pages of a segment may come to the last page of the lower
half. That is the one way in which a load ends without an answer.
-/
namespace KernelCore

namespace Outcome

variable {ε α β : Type}

def bind : Outcome ε α → (α → Outcome ε β) → Outcome ε β
  | .ok a, next => next a
  | .error e, _ => .error e
  | .aborted, _ => .aborted

instance : Monad (Outcome ε) where
  pure := ok
  bind := bind

/-- Fails if the condition holds. -/
def refuse (cause : ε) (P : Prop) [Decidable P] : Outcome ε Unit :=
  if P then .error cause else .ok ()

/-- Stops the kernel unless the condition holds. -/
def demand (P : Prop) [Decidable P] : Outcome ε Unit := if P then .ok () else .aborted

/-- A number that must fit into a word. If it does not, the kernel stops. -/
def word (n : Nat) : Outcome ε Nat := if n < wordLimit then .ok n else .aborted

/-- A number that is tested to fit into a word. If it does not, that is an error. -/
def wordOr (cause : ε) (n : Nat) : Outcome ε Nat := if n < wordLimit then .ok n else .error cause

def ofExcept : Except ε α → Outcome ε α
  | .ok a => .ok a
  | .error e => .error e

@[simp] theorem ok_bind (a : α) (next : α → Outcome ε β) : (ok a >>= next) = next a := rfl

theorem refuse_bind (cause : ε) (P : Prop) [Decidable P] (next : Unit → Outcome ε β) :
    (refuse cause P >>= next) = if P then .error cause else next () := by
  unfold refuse
  split <;> rfl

theorem demand_bind {P : Prop} [Decidable P] (h : P) (next : Unit → Outcome ε β) :
    (demand P >>= next) = next () := by
  rw [demand, if_pos h, ok_bind]

theorem word_bind {n : Nat} (h : n < wordLimit) (next : Nat → Outcome ε β) :
    (word n >>= next) = next n := by
  rw [word, if_pos h, ok_bind]

theorem wordOr_bind (cause : ε) (n : Nat) (next : Nat → Outcome ε β) :
    (wordOr cause n >>= next) = if n < wordLimit then next n else .error cause := by
  unfold wordOr
  split <;> rfl

end Outcome

open Outcome

theorem lt_wordLimit {a : Nat} (h : Canonical a) : a < wordLimit := by
  unfold Canonical userSpaceEnd wordLimit at h
  unfold wordLimit
  omega

/-- A walk over pages ends at the edge of the lower half exactly if it starts before the edge, would
go on behind it and finds no page that is taken before it. -/
theorem scanPages_aborted_iff {taken : Page → Bool} {count first : Nat} :
    scanPages taken count first = .aborted ↔
      (first ≤ lastLowerPage ∧ lastLowerPage < first + count) ∧
        ∀ n, first ≤ n → n < lastLowerPage → taken ⟨n⟩ = false := by
  induction count generalizing first with
  | zero =>
    simp only [scanPages, reduceCtorEq, false_iff]
    omega
  | succ count ih =>
    rw [scanPages]
    split
    · rename_i edge
      simp only [true_iff]
      exact ⟨by omega, fun n hn hlt => by omega⟩
    · rename_i edge
      split
      · rename_i here
        simp only [reduceCtorEq, false_iff]
        rintro ⟨⟨hfirst, -⟩, free⟩
        have none := free first (Nat.le_refl first) (by omega)
        rw [here] at none
        cases none
      · rename_i here
        rw [ih]
        constructor
        · rintro ⟨bounds, free⟩
          refine ⟨by omega, fun n hn hlt => ?_⟩
          by_cases hne : n = first
          · rw [hne]
            exact Bool.eq_false_iff.mpr here
          · exact free n (by omega) hlt
        · rintro ⟨bounds, free⟩
          exact ⟨by omega, fun n hn hlt => free n (by omega) hlt⟩

theorem scanPages_clear_edge {taken : Page → Bool} {count first : Nat}
    (h : scanPages taken count first = .clear) :
    ¬ (first ≤ lastLowerPage ∧ lastLowerPage < first + count) := by
  intro bounds
  have free : scanPages taken count first = .aborted := by
    rw [scanPages_aborted_iff]
    refine ⟨bounds, fun n hn hlt => ?_⟩
    have before : n < first + count := Nat.lt_trans hlt bounds.2
    exact scanPages_clear h hn before
  rw [h] at free
  cases free

namespace Segment

theorem spans_edge_iff {s : Segment} :
    s.spans ⟨lastLowerPage⟩ = true ↔
      s.firstPage ≤ lastLowerPage ∧ lastLowerPage < s.firstPage + s.pageCount := by
  have order : s.firstPage ≤ s.lastPage := Nat.div_le_div_right (Nat.le_add_right _ _)
  simp only [spans, Bool.and_eq_true, decide_eq_true_eq, pageCount]
  omega

/-- The pages of the segment, one after the other. The kernel stops at the edge of the lower half. -/
def walk (s : Segment) : Outcome ImageError (List Page) := do
  demand (s.spans ⟨lastLowerPage⟩ = false)
  return s.pages

/-- The walk over the pages of the segment comes to the edge of the lower half before it finds one
that is taken. -/
def WalksOff (s : Segment) (taken : Page → Bool) : Prop :=
  s.spans ⟨lastLowerPage⟩ = true ∧
    ∀ n, s.firstPage ≤ n → n < lastLowerPage → taken ⟨n⟩ = false

theorem walksOff_iff {s : Segment} {taken : Page → Bool} :
    s.WalksOff taken ↔ scanPages taken s.pageCount s.firstPage = .aborted := by
  rw [WalksOff, spans_edge_iff, scanPages_aborted_iff]

end Segment

namespace ExecutableImage

variable {image : ExecutableImage} {user : Bool} {mapped : Page → Bool}

/-- The entries of the table have the right size, and the table lies in the image. -/
def guardedTable (image : ExecutableImage) : Outcome ImageError Unit := do
  refuse .badProgramHeaders (image.field 54 2 ≠ programHeaderSize)
  let length ← wordOr .badProgramHeaders (image.field 56 2 * programHeaderSize)
  let tableEnd ← wordOr .badProgramHeaders (length + image.field 32 8)
  refuse .badProgramHeaders (image.size < tableEnd)

/-- The header, which is read as a whole. -/
def guardedHeader (image : ExecutableImage) : Outcome ImageError ImageHeader := do
  refuse .tooSmall (image.size < headerSize)
  demand (headerSize ≤ image.size)
  refuse .badMagic (image.bytes.extract 0 4 ≠ #[0x7f, 0x45, 0x4c, 0x46])
  refuse .notElf64 (image.field 4 1 ≠ 2)
  refuse .notLittleEndian (image.field 5 1 ≠ 1)
  refuse .notExecutable (image.field 16 2 ≠ 2)
  refuse .wrongMachine (image.field 18 2 ≠ 62)
  if 0 < image.field 56 2 then
    image.guardedTable
    return ⟨image.field 24 8, image.field 32 8, image.field 56 2⟩
  else
    return ⟨image.field 24 8, image.field 32 8, image.field 56 2⟩

/-- The program header with a number, which lies in the image as a whole. -/
def guardedProgramHeader (image : ExecutableImage) (h : ImageHeader) (i : Nat) :
    Outcome ImageError ProgramHeader := do
  let distance ← word (i * programHeaderSize)
  let offset ← word (h.tableOffset + distance)
  demand (offset + programHeaderSize ≤ image.size)
  return image.programHeader offset

def guardedSegment? (image : ExecutableImage) (user : Bool) (h : ProgramHeader) :
    Outcome ImageError (Option Segment) := do
  refuse .badSegmentSize (h.memorySize < h.fileSize)
  let fileEnd ← wordOr .segmentOutOfBounds (h.offset + h.fileSize)
  refuse .segmentOutOfBounds (image.size < fileEnd)
  if h.memorySize = 0 then return none
  else
    refuse .addressOverflow (¬ Canonical h.address)
    demand (1 ≤ h.memorySize)
    let last ← wordOr .addressOverflow (h.address + (h.memorySize - 1))
    refuse .addressOverflow (¬ Canonical last)
    refuse .notUserAddress (user ∧ userSpaceEnd ≤ last)
    return some ⟨h.address, h.memorySize, h.offset, h.fileSize⟩

/-- Goes through the program headers with these numbers. -/
def guardedSegments (image : ExecutableImage) (user : Bool) (mapped : Page → Bool)
    (header : ImageHeader) :
    (numbers : List Nat) → (earlier : List Segment) → Outcome ImageError (List Segment)
  | [], earlier => .ok earlier
  | i :: numbers, earlier => do
    let h ← image.guardedProgramHeader header i
    if h.type = loadable then
      match ← image.guardedSegment? user h with
      | none => image.guardedSegments user mapped header numbers earlier
      | some s =>
        match scanPages (fun p => !spanned earlier p && mapped p) s.pageCount s.firstPage with
        | .aborted => .aborted
        | .occupied => .error (.mapFailed .alreadyMapped)
        | .clear => image.guardedSegments user mapped header numbers (earlier ++ [s])
    else image.guardedSegments user mapped header numbers earlier

def guardedPlan (image : ExecutableImage) (user : Bool) (mapped : Page → Bool) :
    Outcome ImageError (Nat × List Segment) := do
  let h ← image.guardedHeader
  refuse .addressOverflow (¬ Canonical h.entry)
  refuse .notUserAddress (user ∧ userSpaceEnd ≤ h.entry)
  let segments ← image.guardedSegments user mapped h (List.range h.tableLength) []
  return (h.entry, segments)

def guardedPages : (earlier segments : List Segment) → Outcome ImageError (List Page)
  | _, [] => .ok []
  | earlier, s :: segments => do
    let pages ← s.walk
    let more ← guardedPages (earlier ++ [s]) segments
    return pages.filter (fun p => !spanned earlier p) ++ more

variable {π : Type} [Platform π]

/-- Fills segments, whose bytes the image must have. -/
def guardedFill (image : ExecutableImage) : List Segment → π → Outcome ImageError π
  | [], p => .ok p
  | s :: segments, p => do
    demand (s.fileOffset + s.fileSize ≤ image.size)
    image.guardedFill segments (image.fillSegment s p)

/-- A load that stops the kernel at every step that cannot be done. -/
def guardedLoad (image : ExecutableImage) (space : AddressSpace) (user : Bool) (p : π) :
    Outcome ImageError LoadedImage × π :=
  match image.guardedPlan user (isMapped p space) with
  | .error e => (.error e, p)
  | .aborted => (.aborted, p)
  | .ok (entry, segments) =>
    match guardedPages [] segments with
    | .error e => (.error e, p)
    | .aborted => (.aborted, p)
    | .ok pages =>
      match mapAllFresh space user (fun _ _ => false) pages [] p with
      | (.error e, p) => (.error (mapError e), p)
      | (.ok (), p) =>
        match image.guardedFill segments p with
        | .error e => (.error e, p)
        | .aborted => (.aborted, p)
        | .ok p => (.ok ⟨entry, segments.length, pages.length⟩, p)

/-- The end of a table that does not lie in the image may not be a word. The error is the same. -/
theorem guardedTable_eq (fits : image.size < wordLimit) :
    image.guardedTable = refuse .badProgramHeaders (image.field 54 2 ≠ programHeaderSize ∨
      image.size < image.field 32 8 + programHeaderSize * image.field 56 2) := by
  simp only [guardedTable, refuse_bind, wordOr_bind, Nat.mul_comm programHeaderSize,
    Nat.add_comm (image.field 32 8)]
  by_cases entries : image.field 54 2 ≠ programHeaderSize
  · rw [if_pos entries, refuse, if_pos (.inl entries)]
  · by_cases room : image.size < image.field 56 2 * programHeaderSize + image.field 32 8
    · have outside : image.field 54 2 ≠ programHeaderSize ∨
          image.size < image.field 56 2 * programHeaderSize + image.field 32 8 := .inr room
      rw [if_neg entries, refuse, refuse, if_pos room, if_pos outside]
      split
      · split <;> rfl
      · rfl
    · have inside : ¬ (image.field 54 2 ≠ programHeaderSize ∨
          image.size < image.field 56 2 * programHeaderSize + image.field 32 8) :=
        not_or.mpr ⟨entries, room⟩
      rw [if_neg entries, if_pos (by omega), if_pos (by omega), refuse, refuse, if_neg room,
        if_neg inside]

theorem guardedHeader_eq (fits : image.size < wordLimit) :
    image.guardedHeader = .ofExcept image.header := by
  simp only [guardedHeader, header, refuse_bind, guardedTable_eq fits, apply_ite Outcome.ofExcept]
  apply ite_congr rfl (fun _ => rfl)
  intro large
  rw [demand_bind (Nat.le_of_not_lt large)]
  apply ite_congr rfl (fun _ => rfl)
  intro magic
  apply ite_congr rfl (fun _ => rfl)
  intro elf64
  apply ite_congr rfl (fun _ => rfl)
  intro littleEndian
  apply ite_congr rfl (fun _ => rfl)
  intro executable
  apply ite_congr rfl (fun _ => rfl)
  intro machine
  by_cases table : 0 < image.field 56 2
  · simp only [table, if_true, true_and]
    rfl
  · simp only [table, if_false, false_and]
    rfl

/-- The program headers of a header that was accepted lie in the image. -/
theorem table_inside {h : ImageHeader} (hh : image.header = .ok h) {i : Nat}
    (hi : i < h.tableLength) :
    h.tableOffset + i * programHeaderSize + programHeaderSize ≤ image.size := by
  simp only [header] at hh
  repeat' split at hh
  all_goals cases hh
  rename_i sound
  simp only [not_and, not_or, Nat.not_lt] at sound
  have inside := (sound (by simp only at hi; omega)).2
  simp only [programHeaderSize] at hi inside ⊢
  omega

theorem guardedProgramHeader_eq (fits : image.size < wordLimit) {h : ImageHeader}
    (hh : image.header = .ok h) {i : Nat} (hi : i < h.tableLength) :
    image.guardedProgramHeader h i =
      .ok (image.programHeader (h.tableOffset + i * programHeaderSize)) := by
  have inside := table_inside hh hi
  rw [guardedProgramHeader, word_bind (by omega), word_bind (by omega), demand_bind inside]
  rfl

theorem guardedSegment?_eq (fits : image.size < wordLimit) (h : ProgramHeader) :
    image.guardedSegment? user h = .ofExcept (image.segment? user h) := by
  simp only [guardedSegment?, segment?, refuse_bind, wordOr_bind, apply_ite Outcome.ofExcept]
  apply ite_congr rfl (fun _ => rfl)
  intro size
  by_cases outside : image.size < h.offset + h.fileSize
  · rw [if_pos outside, if_pos outside]
    split <;> rfl
  · rw [if_pos (by omega), if_neg outside, if_neg outside]
    apply ite_congr rfl (fun _ => rfl)
    intro some
    have one : 1 ≤ h.memorySize := Nat.pos_of_ne_zero some
    rw [demand_bind one]
    by_cases outside : ¬ Canonical h.address ∨ ¬ Canonical (h.address + (h.memorySize - 1))
    · rw [if_pos outside]
      rcases outside with first | last
      · rw [if_pos first]
        rfl
      · rw [if_pos last]
        split
        · rfl
        · split <;> rfl
    · rw [if_neg outside]
      obtain ⟨first, last⟩ := not_or.mp outside
      rw [if_neg first, if_neg last, if_pos (lt_wordLimit (not_not.mp last))]
      rfl

/-- Nothing stops on the way to the segments of the headers with these numbers, apart from the walks
over their pages. -/
theorem guardedSegments_eq (fits : image.size < wordLimit) {header : ImageHeader}
    (hh : image.header = .ok header) {numbers : List Nat} {earlier : List Segment}
    (inTable : ∀ i ∈ numbers, i < header.tableLength) :
    image.guardedSegments user mapped header numbers earlier =
      image.planSegments user mapped ((numbers.map fun i =>
        image.programHeader (header.tableOffset + i * programHeaderSize)).filter
          (·.type = loadable)) earlier := by
  induction numbers generalizing earlier with
  | nil => rfl
  | cons i numbers ih =>
    obtain ⟨hi, rest⟩ := List.forall_mem_cons.mp inTable
    rw [guardedSegments, guardedProgramHeader_eq fits hh hi, ok_bind, List.map_cons]
    by_cases load : (image.programHeader
        (header.tableOffset + i * programHeaderSize)).type = loadable
    · rw [if_pos load, List.filter_cons_of_pos (by simpa using load), planSegments,
        guardedSegment?_eq fits]
      rcases hs : image.segment? user _ with e | _ | s
      · rfl
      · exact ih rest
      · simp only [Outcome.ofExcept, ok_bind]
        cases scanPages (fun p => !spanned earlier p && mapped p) s.pageCount s.firstPage with
        | clear => exact ih rest
        | occupied => rfl
        | aborted => rfl
    · rw [if_neg load, List.filter_cons_of_neg (by simpa using load)]
      exact ih rest

theorem guardedPlan_eq (fits : image.size < wordLimit) :
    image.guardedPlan user mapped = image.plan user mapped := by
  rw [guardedPlan, plan, guardedHeader_eq fits]
  cases hh : image.header with
  | error e => rfl
  | ok h =>
    simp only [Outcome.ofExcept, ok_bind, refuse_bind]
    apply ite_congr rfl (fun _ => rfl)
    intro canonical
    apply ite_congr rfl (fun _ => rfl)
    intro lower
    rw [guardedSegments_eq fits hh fun i hi => List.mem_range.mp hi]
    rw [← programHeaders, ← loadHeaders]
    cases image.planSegments user mapped (image.loadHeaders h) [] <;> rfl

/-- A segment gets into a plan only after a walk over all its pages. -/
theorem walkable_of_planSegments {headers : List ProgramHeader} {earlier segments : List Segment}
    (h : image.planSegments user mapped headers earlier = .ok segments)
    (walkable : ∀ s ∈ earlier, s.spans ⟨lastLowerPage⟩ = false) :
    ∀ s ∈ segments, s.spans ⟨lastLowerPage⟩ = false := by
  induction headers generalizing earlier with
  | nil =>
    cases h
    exact walkable
  | cons header headers ih =>
    rw [planSegments] at h
    split at h
    · cases h
    · exact ih h walkable
    · rename_i s hs
      split at h
      · cases h
      · cases h
      · rename_i clear
        have inner : s.spans ⟨lastLowerPage⟩ = false := by
          rw [Bool.eq_false_iff, ne_eq, Segment.spans_edge_iff]
          exact scanPages_clear_edge clear
        apply ih h
        intro s' hs'
        rcases List.mem_append.mp hs' with hs' | hs'
        · exact walkable s' hs'
        · rw [List.mem_singleton.mp hs']
          exact inner

theorem walkable_of_plan {entry : Nat} {segments : List Segment}
    (h : image.plan user mapped = .ok (entry, segments)) :
    ∀ s ∈ segments, s.spans ⟨lastLowerPage⟩ = false := by
  rw [plan] at h
  repeat' split at h
  all_goals cases h
  rename_i planned
  exact walkable_of_planSegments planned fun _ none => absurd none List.not_mem_nil

theorem guardedPages_eq {earlier segments : List Segment}
    (walkable : ∀ s ∈ segments, s.spans ⟨lastLowerPage⟩ = false) :
    guardedPages earlier segments = .ok (freshPages earlier segments) := by
  induction segments generalizing earlier with
  | nil => rfl
  | cons s segments ih =>
    obtain ⟨first, rest⟩ := List.forall_mem_cons.mp walkable
    rw [guardedPages, Segment.walk, demand_bind first, ih rest]
    rfl

variable {π : Type} [Platform π]

theorem guardedFill_eq {segments : List Segment} (p : π)
    (inside : ∀ s ∈ segments, s.fileOffset + s.fileSize ≤ image.size) :
    image.guardedFill segments p = .ok (segments.foldl (fun p s => image.fillSegment s p) p) := by
  induction segments generalizing p with
  | nil => rfl
  | cons s segments ih =>
    obtain ⟨first, rest⟩ := List.forall_mem_cons.mp inside
    rw [guardedFill, demand_bind first, ih _ rest, List.foldl_cons]

theorem Planned.inside {segments : List Segment} (planned : image.Planned mapped segments) :
    ∀ s ∈ segments, s.fileOffset + s.fileSize ≤ image.size := by
  intro s hs
  rw [planned.segments_eq] at hs
  obtain ⟨h, hm, rfl⟩ := List.mem_map.mp hs
  exact (planned.fits h hm).2

/-- Nothing stops the kernel but a walk over the pages of a segment that is being checked. -/
theorem guardedLoad_eq (fits : image.size < wordLimit) (space : AddressSpace) (user : Bool)
    (p : π) : image.guardedLoad space user p = image.load space user p := by
  rw [guardedLoad, load, guardedPlan_eq fits]
  rcases made : image.plan user (isMapped p space) with ⟨entry, segments⟩ | e | _
  · dsimp only
    rw [guardedPages_eq (walkable_of_plan made)]
    dsimp only
    rcases mapAllFresh space user (fun _ _ => false) (freshPages [] segments) [] p with ⟨_ | _, q⟩
    · rfl
    · simp only [guardedFill_eq q (plan_ok made).inside]
  · rfl
  · rfl

/-- The headers are taken one after the other. -/
theorem planSegments_append (before after : List ProgramHeader) (earlier : List Segment) :
    image.planSegments user mapped (before ++ after) earlier =
      image.planSegments user mapped before earlier >>= image.planSegments user mapped after := by
  induction before generalizing earlier with
  | nil => rfl
  | cons h before ih =>
    rw [List.cons_append, planSegments, planSegments]
    split
    · rfl
    · exact ih earlier
    · split
      · rfl
      · rfl
      · exact ih _

/-- One segment walks off the lower half, after the segments before it went into the plan. -/
theorem planSegments_aborted_iff {headers : List ProgramHeader} {earlier : List Segment} :
    image.planSegments user mapped headers earlier = .aborted ↔
      ∃ before h after planned s, headers = before ++ h :: after ∧
        image.planSegments user mapped before earlier = .ok planned ∧
        image.segment? user h = .ok (some s) ∧
        s.WalksOff fun page => !spanned planned page && mapped page := by
  constructor
  · intro aborted
    induction headers generalizing earlier with
    | nil => cases aborted
    | cons header headers ih =>
      rw [planSegments] at aborted
      split at aborted
      · cases aborted
      · rename_i hs
        obtain ⟨before, h, after, planned, s, rfl, made, rest⟩ := ih aborted
        refine ⟨header :: before, h, after, planned, s, rfl, ?_, rest⟩
        rw [planSegments, hs]
        exact made
      · rename_i s hs
        split at aborted
        · rename_i walk
          exact ⟨[], header, headers, earlier, s, rfl, rfl, hs, Segment.walksOff_iff.mpr walk⟩
        · cases aborted
        · rename_i clear
          obtain ⟨before, h, after, planned, s', rfl, made, rest⟩ := ih aborted
          refine ⟨header :: before, h, after, planned, s', rfl, ?_, rest⟩
          simp only [planSegments, hs, clear]
          exact made
  · rintro ⟨before, h, after, planned, s, rfl, made, hs, walks⟩
    rw [planSegments_append, made, ok_bind, planSegments, hs]
    simp only [Segment.walksOff_iff.mp walks]

/-- Nothing is wrong with the header of the image, and one of its segments walks off the lower half
after those before it went into the plan. -/
def WalksOff (image : ExecutableImage) (user : Bool) (mapped : Page → Bool) : Prop :=
  ∃ header before h after planned s, image.header = .ok header ∧ Canonical header.entry ∧
    ¬ (user ∧ userSpaceEnd ≤ header.entry) ∧ image.loadHeaders header = before ++ h :: after ∧
    image.planSegments user mapped before [] = .ok planned ∧
    image.segment? user h = .ok (some s) ∧
    s.WalksOff fun page => !spanned planned page && mapped page

theorem plan_aborted_iff : image.plan user mapped = .aborted ↔ image.WalksOff user mapped := by
  constructor
  · intro aborted
    rw [plan] at aborted
    split at aborted
    · cases aborted
    · rename_i header hh
      split at aborted
      · cases aborted
      · rename_i canonical
        split at aborted
        · cases aborted
        · rename_i lower
          split at aborted
          · cases aborted
          · cases aborted
          · rename_i walked
            obtain ⟨before, h, after, planned, s, headers, rest⟩ := planSegments_aborted_iff.mp walked
            exact ⟨header, before, h, after, planned, s, hh, not_not.mp canonical, lower, headers,
              rest⟩
  · rintro ⟨header, before, h, after, planned, s, hh, canonical, lower, headers, rest⟩
    have walked : image.planSegments user mapped (image.loadHeaders header) [] = .aborted :=
      planSegments_aborted_iff.mpr ⟨before, h, after, planned, s, headers, rest⟩
    simp only [plan, hh, walked, not_not_intro canonical, lower, if_false]

theorem load_aborted_iff {space : AddressSpace} {p : π} :
    (image.load space user p).1 = .aborted ↔ image.plan user (isMapped p space) = .aborted := by
  rw [load]
  rcases image.plan user (isMapped p space) with ⟨entry, segments⟩ | e | _
  · dsimp only
    rcases mapAllFresh space user (fun _ _ => false) (freshPages [] segments) [] p with ⟨_ | _, q⟩ <;>
      simp
  · simp
  · simp

/-- Every load ends with an answer, whatever the image and whatever state the machine is in, except
that the kernel stops, before anything is done, if a segment walks off the lower half. None of the
other steps ever stops it. -/
theorem load_answers_iff (fits : image.size < wordLimit) (space : AddressSpace) (user : Bool)
    (p : π) :
    image.guardedLoad space user p = image.load space user p ∧
      (((∃ info, (image.load space user p).1 = .ok info) ∨
        ∃ e, (image.load space user p).1 = .error e) ↔
          ¬ image.WalksOff user (isMapped p space)) ∧
      (image.WalksOff user (isMapped p space) → image.load space user p = (.aborted, p)) := by
  refine ⟨guardedLoad_eq fits space user p, ?_, fun walks => ?_⟩
  · rw [← plan_aborted_iff, ← load_aborted_iff]
    rcases (image.load space user p).1 with info | e | _ <;> simp
  · rw [load, plan_aborted_iff.mpr walks]

/-- A load whose segments all stay off the last page of the lower half has an answer. -/
theorem not_walksOff {mapped : Page → Bool}
    (off : ∀ h ∈ image.memoryHeaders, h.segment.spans ⟨lastLowerPage⟩ = false) :
    ¬ image.WalksOff user mapped := by
  rintro ⟨header, before, h, after, planned, s, hh, -, -, headers, -, hs, edge, -⟩
  obtain ⟨-, hsome⟩ := segment?_ok hs
  split at hsome
  · rename_i memory
    obtain rfl := Option.some.inj hsome
    have hm : h ∈ image.memoryHeaders := by
      rw [memoryHeaders, hh]
      simp [headers, memory]
    rw [off h hm] at edge
    cases edge
  · cases hsome

/-- Takes the last page of the lower half. -/
def lastPageImage : ExecutableImage :=
  written 0x400000 [⟨loadable, 120, 0x7ffffffff000, 4, 16⟩] [1, 2, 3, 4]

/-- Takes the last page of the lower half and all between it and the first page of the upper half. -/
def bothHalves : ExecutableImage :=
  written 0x400000 [⟨loadable, 120, 0x7ffffffff000, 4, 0xffff000000002000⟩] [1, 2, 3, 4]

/-- Two segments that nothing is wrong with, and the walk over their pages stops the kernel. -/
theorem load_aborts_at_edge :
    (lastPageImage.segment? true ⟨loadable, 120, 0x7ffffffff000, 4, 16⟩ =
        .ok (some ⟨0x7ffffffff000, 16, 120, 4⟩) ∧
      (lastPageImage.load ⟨0x1000⟩ true ({} : FlatMachine)).1 = .aborted) ∧
    (bothHalves.segment? false ⟨loadable, 120, 0x7ffffffff000, 4, 0xffff000000002000⟩ =
        .ok (some ⟨0x7ffffffff000, 0xffff000000002000, 120, 4⟩) ∧
      (bothHalves.load ⟨0x1000⟩ false ({} : FlatMachine)).1 = .aborted) := by
  decide +kernel

theorem load_answers_straddling :
    straddling.size < wordLimit ∧
      ((∃ info, (straddling.load ⟨0x1000⟩ true ({} : FlatMachine)).1 = .ok info) ∨
        ∃ e, (straddling.load ⟨0x1000⟩ true ({} : FlatMachine)).1 = .error e) := by
  have fits : straddling.size < wordLimit := by decide +kernel
  have off : ∀ h ∈ straddling.memoryHeaders, h.segment.spans ⟨lastLowerPage⟩ = false := by
    decide +kernel
  obtain ⟨-, answers, -⟩ := load_answers_iff fits ⟨0x1000⟩ true ({} : FlatMachine)
  exact ⟨fits, answers.mpr (not_walksOff off)⟩

end ExecutableImage
end KernelCore
