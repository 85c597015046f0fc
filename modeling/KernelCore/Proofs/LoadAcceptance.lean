import KernelCore.Proofs.GuardedLoad

/-!
# Which loads succeed

What a load asks for, as a list of conditions in the order in which they are looked at: those on the
header of the image and on its entry point, then for each loadable program header, in table order,
those on its fields and the one that none of its pages is mapped. If all of them hold, the pages that
the image touches are provided for one after the other. A load that stays off the edge of the lower
half succeeds exactly if all conditions hold and every page is provided for. Otherwise its error is
that of the first condition that does not hold, or of the first page that is refused.
-/
namespace KernelCore

/-- A condition for a load, and the error of a load that does not meet it. -/
structure Requirement where
  holds : Prop
  cause : ImageError

namespace Requirement

/-- The error of the first condition in a list that does not hold. -/
inductive FirstFault : List Requirement → ImageError → Prop where
  | here {r : Requirement} {rs : List Requirement} (h : ¬ r.holds) : FirstFault (r :: rs) r.cause
  | later {r : Requirement} {rs : List Requirement} {e : ImageError} (h : r.holds)
      (rest : FirstFault rs e) : FirstFault (r :: rs) e

variable {r : Requirement} {rs rs' : List Requirement} {e e' : ImageError}

theorem firstFault_cons_of_holds (h : r.holds) : FirstFault (r :: rs) e ↔ FirstFault rs e := by
  constructor
  · intro fault
    cases fault with
    | here broken => exact absurd h broken
    | later _ rest => exact rest
  · exact .later h

theorem firstFault_cons_of_not (h : ¬ r.holds) : FirstFault (r :: rs) e ↔ e = r.cause := by
  constructor
  · intro fault
    cases fault with
    | here => rfl
    | later holds _ => exact absurd holds h
  · rintro rfl
    exact .here h

theorem firstFault_append_of_all (h : ∀ r ∈ rs, r.holds) :
    FirstFault (rs ++ rs') e ↔ FirstFault rs' e := by
  induction rs with
  | nil => rfl
  | cons r rs ih =>
    rw [List.forall_mem_cons] at h
    rw [List.cons_append, firstFault_cons_of_holds h.1]
    exact ih h.2

theorem firstFault_append_of_fault (h : FirstFault rs e) :
    FirstFault (rs ++ rs') e' ↔ e' = e := by
  induction h with
  | here broken => exact firstFault_cons_of_not broken
  | later holds _ ih => rwa [List.cons_append, firstFault_cons_of_holds holds]

theorem FirstFault.not_all (h : FirstFault rs e) : ¬ ∀ r ∈ rs, r.holds := by
  induction h with
  | here broken => exact fun all => broken (all _ List.mem_cons_self)
  | later _ _ ih => exact fun all => ih fun r hr => all r (List.mem_cons_of_mem _ hr)

theorem all_or_fault (rs : List Requirement) : (∀ r ∈ rs, r.holds) ∨ ∃ e, FirstFault rs e := by
  induction rs with
  | nil => simp
  | cons r rs ih =>
    by_cases h : r.holds
    · simpa [h, firstFault_cons_of_holds] using ih
    · exact .inr ⟨_, .here h⟩

variable {α β : Type}

/-- There is an answer exactly if all conditions hold, and otherwise the error is that of the first
one that does not. -/
structure Decides (rs : List Requirement) (x : Outcome ImageError α) : Prop where
  ok_iff : (∃ a, x = .ok a) ↔ ∀ r ∈ rs, r.holds
  error_iff (e : ImageError) : x = .error e ↔ FirstFault rs e

variable {x : Outcome ImageError α}

theorem Decides.not_aborted {x : Outcome ImageError α} (h : Decides rs x) : x ≠ .aborted := by
  rintro rfl
  rcases all_or_fault rs with all | ⟨e, fault⟩
  · obtain ⟨a, none⟩ := h.ok_iff.mpr all
    cases none
  · cases (h.error_iff e).mpr fault

theorem decides_ok (a : α) : Decides [] (.ok a : Outcome ImageError α) where
  ok_iff := by simp
  error_iff e := ⟨nofun, nofun⟩

theorem Decides.of_fault (h : FirstFault rs e) : Decides rs (.error e : Outcome ImageError α) where
  ok_iff := by simpa using h.not_all
  error_iff e' := by
    have only : FirstFault (rs ++ []) e' ↔ e' = e := firstFault_append_of_fault h
    rw [List.append_nil] at only
    rw [only, Outcome.error.injEq, eq_comm]

theorem Decides.later (h : Decides rs x) (holds : r.holds) : Decides (r :: rs) x where
  ok_iff := by simp [h.ok_iff, holds]
  error_iff e := by rw [h.error_iff, firstFault_cons_of_holds holds]

/-- The first condition is looked at, then the others. -/
theorem Decides.refuse {P : Prop} [Decidable P] (hr : r.holds ↔ ¬ P)
    (rest : ¬ P → Decides rs x) : Decides (r :: rs) (if P then .error r.cause else x) := by
  by_cases h : P
  · rw [if_pos h]
    exact .of_fault (.here fun holds => hr.mp holds h)
  · rw [if_neg h]
    exact (rest h).later (hr.mpr h)

/-- The first conditions are looked at by `y`, whose errors are passed on. -/
theorem Decides.andThen {y : Except ImageError α} {z : Outcome ImageError β}
    (h : Decides rs (.ofExcept y)) (passed : ∀ e, y = .error e → z = .error e)
    (next : ∀ a, y = .ok a → (∀ r ∈ rs, r.holds) → Decides rs' z) : Decides (rs ++ rs') z := by
  cases found : y with
  | error e =>
    have fault := (h.error_iff e).mp (congrArg Outcome.ofExcept found)
    rw [passed e found]
    exact .of_fault ((firstFault_append_of_fault fault).mpr rfl)
  | ok a =>
    have all := h.ok_iff.mp ⟨a, congrArg Outcome.ofExcept found⟩
    have rest := next a found all
    constructor
    · rw [rest.ok_iff, List.forall_mem_append, and_iff_right all]
    · intro e
      rw [rest.error_iff, firstFault_append_of_all all]

theorem Decides.congr {z : Outcome ImageError β} (h : Decides rs x)
    (answers : (∃ b, z = .ok b) ↔ ∃ a, x = .ok a)
    (errors : ∀ e, z = .error e ↔ x = .error e) : Decides rs z where
  ok_iff := answers.trans h.ok_iff
  error_iff e := (errors e).trans (h.error_iff e)

end Requirement

open Requirement

namespace ProgramHeader

/-- The last address that the segment of the header takes. -/
def last (h : ProgramHeader) : Nat := h.address + (h.memorySize - 1)

def pages (h : ProgramHeader) : List Page := pagesTouched h.address h.memorySize

theorem pages_segment {h : ProgramHeader} (memory : 0 < h.memorySize) :
    h.segment.pages = h.pages := by
  rw [Segment.pages, pages, pagesTouched, pageCount, if_neg (Nat.ne_of_gt memory)]
  rfl

theorem mem_pages {h : ProgramHeader} (memory : 0 < h.memorySize) {page : Page} :
    page ∈ h.pages ↔ h.segment.spans page = true := by
  rw [← pages_segment memory, Segment.mem_pages]

/-- A segment between two canonical addresses does not take the last page of the lower half, and so
does not go across the gap either. -/
def KeepsOffEdge (h : ProgramHeader) : Prop :=
  Canonical h.address → Canonical h.last → h.segment.spans ⟨lastLowerPage⟩ = false

instance (h : ProgramHeader) : Decidable h.KeepsOffEdge := by
  unfold KeepsOffEdge; infer_instance

end ProgramHeader

theorem scanPages_occupied {taken : Page → Bool} {count first : Nat}
    (h : scanPages taken count first = .occupied) :
    ∃ page : Page, first ≤ page.number ∧ page.number < first + count ∧ taken page = true := by
  induction count generalizing first with
  | zero => cases h
  | succ count ih =>
    rw [scanPages] at h
    split at h
    · cases h
    · split at h
      · rename_i here
        exact ⟨⟨first⟩, Nat.le_refl _, by simp, here⟩
      · obtain ⟨page, low, high, there⟩ := ih h
        exact ⟨page, by omega, by omega, there⟩

namespace ExecutableImage

variable {image : ExecutableImage} {user : Bool} {mapped : Page → Bool} {h : ProgramHeader}

/-! ### The conditions -/

/-- What the start of an image must be like. -/
def headerRequirements (image : ExecutableImage) : List Requirement :=
  [⟨headerSize ≤ image.size, .tooSmall⟩,
    ⟨image.bytes.extract 0 4 = #[0x7f, 0x45, 0x4c, 0x46], .badMagic⟩,
    ⟨image.field 4 1 = 2, .notElf64⟩,
    ⟨image.field 5 1 = 1, .notLittleEndian⟩,
    ⟨image.field 16 2 = 2, .notExecutable⟩,
    ⟨image.field 18 2 = 62, .wrongMachine⟩,
    ⟨0 < image.field 56 2 → image.field 54 2 = programHeaderSize ∧
        image.field 32 8 + programHeaderSize * image.field 56 2 ≤ image.size,
      .badProgramHeaders⟩]

/-- What the bytes in the place of the header say. -/
def nominalHeader (image : ExecutableImage) : ImageHeader :=
  ⟨image.field 24 8, image.field 32 8, image.field 56 2⟩

def entryRequirements (image : ExecutableImage) (user : Bool) : List Requirement :=
  [⟨Canonical image.nominalHeader.entry, .addressOverflow⟩,
    ⟨user = true → image.nominalHeader.entry < userSpaceEnd, .notUserAddress⟩]

def fieldRequirements (image : ExecutableImage) (user : Bool) (h : ProgramHeader) :
    List Requirement :=
  [⟨h.fileSize ≤ h.memorySize, .badSegmentSize⟩,
    ⟨h.offset + h.fileSize ≤ image.size, .segmentOutOfBounds⟩,
    ⟨0 < h.memorySize → Canonical h.address ∧ Canonical h.last, .addressOverflow⟩,
    ⟨0 < h.memorySize → user = true → h.last < userSpaceEnd, .notUserAddress⟩]

def pageRequirement (mapped : Page → Bool) (h : ProgramHeader) : Requirement :=
  ⟨∀ page ∈ h.pages, mapped page = false, .mapFailed .alreadyMapped⟩

def segmentRequirements (image : ExecutableImage) (user : Bool) (mapped : Page → Bool)
    (h : ProgramHeader) : List Requirement :=
  image.fieldRequirements user h ++ [pageRequirement mapped h]

/-- All conditions for a load, in the order in which they are looked at. -/
def requirements (image : ExecutableImage) (user : Bool) (mapped : Page → Bool) :
    List Requirement :=
  image.headerRequirements ++ (image.entryRequirements user ++
    (image.loadHeaders image.nominalHeader).flatMap (image.segmentRequirements user mapped))

/-! ### What decides them -/

theorem decides_header (image : ExecutableImage) :
    Decides image.headerRequirements (.ofExcept image.header) := by
  simp only [header, apply_ite Outcome.ofExcept]
  refine .refuse Nat.not_lt.symm fun _ => ?_
  refine .refuse not_not.symm fun _ => ?_
  refine .refuse not_not.symm fun _ => ?_
  refine .refuse not_not.symm fun _ => ?_
  refine .refuse not_not.symm fun _ => ?_
  refine .refuse not_not.symm fun _ => ?_
  exact .refuse (by simp [not_or]) fun _ => decides_ok _

theorem eq_nominalHeader {header : ImageHeader} (h : image.header = .ok header) :
    header = image.nominalHeader := by
  simp only [ExecutableImage.header] at h
  repeat' split at h
  all_goals cases h
  rfl

theorem decides_segment? (image : ExecutableImage) (user : Bool) (h : ProgramHeader) :
    Decides (image.fieldRequirements user h) (.ofExcept (image.segment? user h)) := by
  simp only [segment?, apply_ite Outcome.ofExcept]
  refine .refuse Nat.not_lt.symm fun _ => .refuse Nat.not_lt.symm fun _ => ?_
  by_cases memory : h.memorySize = 0
  · rw [if_pos memory]
    exact ((decides_ok _).later (by simp [memory])).later (by simp [memory])
  · rw [if_neg memory]
    have some : 0 < h.memorySize := Nat.pos_of_ne_zero memory
    refine .refuse (by simp [some, ProgramHeader.last, not_or]) fun _ => ?_
    exact .refuse (by simp [some, ProgramHeader.last]) fun _ => decides_ok _

theorem canonical_of_fields (all : ∀ r ∈ image.fieldRequirements user h, r.holds)
    (memory : 0 < h.memorySize) : Canonical h.address ∧ Canonical h.last := by
  simp only [fieldRequirements, List.forall_mem_cons] at all
  exact all.2.2.1 memory

/-- The walk over the pages of a segment, none of whose pages in an earlier segment is mapped, comes
upon a page that is taken exactly if some page of the segment is mapped. -/
theorem scanPages_segment {earlier : List Segment} (memory : 0 < h.memorySize)
    (off : h.segment.spans ⟨lastLowerPage⟩ = false)
    (clear : ∀ page, spanned earlier page = true → mapped page = false) :
    let scan := scanPages (fun p => !spanned earlier p && mapped p) h.segment.pageCount
      h.segment.firstPage
    (scan = .clear ∧ (pageRequirement mapped h).holds) ∨
      (scan = .occupied ∧ ¬ (pageRequirement mapped h).holds) := by
  intro scan
  cases end_ : scan with
  | clear =>
    refine .inl ⟨rfl, fun page hp => ?_⟩
    obtain ⟨low, high⟩ := Segment.number_lt_of_spans ((ProgramHeader.mem_pages memory).mp hp)
    have free := scanPages_clear end_ low high
    by_cases shared : spanned earlier page = true
    · exact clear page shared
    · simpa [shared] using free
  | occupied =>
    refine .inr ⟨rfl, fun holds => ?_⟩
    obtain ⟨page, low, high, taken⟩ := scanPages_occupied end_
    simp only [Bool.and_eq_true, Bool.not_eq_true'] at taken
    have inside : page ∈ h.pages := by
      rw [← ProgramHeader.pages_segment memory, Segment.pages, pagesFrom, List.mem_map]
      exact ⟨page.number, List.mem_range'_1.mpr ⟨low, high⟩, rfl⟩
    have free := holds page inside
    rw [taken.2] at free
    cases free
  | aborted =>
    have edge := (scanPages_aborted_iff.mp end_).1
    rw [← Segment.spans_edge_iff, off] at edge
    cases edge

theorem decides_planSegments {headers : List ProgramHeader} {earlier : List Segment}
    (inner : ∀ h ∈ headers, 0 < h.memorySize → h.KeepsOffEdge)
    (clear : ∀ page, spanned earlier page = true → mapped page = false) :
    Decides (headers.flatMap (image.segmentRequirements user mapped))
      (image.planSegments user mapped headers earlier) := by
  induction headers generalizing earlier with
  | nil => exact decides_ok earlier
  | cons h headers ih =>
    obtain ⟨here, inner⟩ := List.forall_mem_cons.mp inner
    rw [List.flatMap_cons, segmentRequirements, List.append_assoc, List.singleton_append]
    apply (decides_segment? image user h).andThen
    · intro e found
      rw [planSegments, found]
    · intro answer found all
      rw [planSegments, found]
      obtain ⟨-, rfl⟩ := segment?_ok found
      by_cases memory : 0 < h.memorySize
      · simp only [if_pos memory]
        obtain ⟨first, last⟩ := canonical_of_fields all memory
        obtain ⟨scan, free⟩ | ⟨scan, taken⟩ := scanPages_segment memory (here memory first last) clear
        · rw [scan]
          apply (ih inner _).later free
          intro page hp
          rw [spanned_append, Bool.or_eq_true] at hp
          rcases hp with hp | hp
          · exact clear page hp
          · exact free page ((ProgramHeader.mem_pages memory).mpr (by simpa [spanned] using hp))
        · rw [scan]
          exact .of_fault (.here taken)
      · simp only [if_neg memory]
        apply (ih inner clear).later
        have none : h.pages = [] := by
          rw [ProgramHeader.pages, Nat.eq_zero_of_not_pos memory]
          rfl
        simp [pageRequirement, none]

/-- Everything that is looked at before the first frame is taken. -/
theorem decides_plan (inner : ∀ h ∈ image.memoryHeaders, h.KeepsOffEdge) :
    Decides (image.requirements user mapped) (image.plan user mapped) := by
  apply (decides_header image).andThen
  · intro e found
    rw [plan, found]
  · intro header found _
    obtain rfl := eq_nominalHeader found
    rw [plan, found]
    have stays : ∀ h ∈ image.loadHeaders image.nominalHeader, 0 < h.memorySize → h.KeepsOffEdge := by
      intro h hm memory
      apply inner h
      simp [memoryHeaders, found, hm, memory]
    have segments : Decides
        ((image.loadHeaders image.nominalHeader).flatMap (image.segmentRequirements user mapped))
        (image.planSegments user mapped (image.loadHeaders image.nominalHeader) []) :=
      decides_planSegments stays fun _ spans => by simp [spanned] at spans
    refine .refuse not_not.symm fun _ => .refuse (by simp) fun _ => segments.congr ?_ ?_ <;>
      cases image.planSegments user mapped (image.loadHeaders image.nominalHeader) [] <;> simp

/-! ### The pages -/

theorem eraseDups_of_nodup {pages : List Page} (h : pages.Nodup) : pages.eraseDups = pages := by
  induction pages with
  | nil => rfl
  | cons page pages ih =>
    obtain ⟨fresh, apart⟩ := List.nodup_cons.mp h
    have others : (pages.filter fun q => !q == page) = pages := by
      apply List.filter_eq_self.mpr
      intro q hq
      have other : q ≠ page := fun same => fresh (same ▸ hq)
      simpa using other
    rw [List.eraseDups_cons, others, ih apart]

/-- The pages that the segments take, each where it occurs first. -/
theorem freshPages_eq {earlier segments : List Segment} :
    freshPages earlier segments =
      ((segments.flatMap Segment.pages).filter fun page => !spanned earlier page).eraseDups := by
  induction segments generalizing earlier with
  | nil => rfl
  | cons s segments ih =>
    have apart : s.pages.Nodup := List.Nodup.map (fun _ _ h => Page.mk.inj h) List.nodup_range'
    rw [freshPages, List.flatMap_cons, List.filter_append, List.eraseDups_append, ih,
      eraseDups_of_nodup (apart.filter _), List.removeAll, List.filter_filter]
    congr 2
    apply List.filter_congr
    intro page _
    have taken : (s.pages.filter fun q => !spanned earlier q).elem page =
        (!spanned earlier page && s.spans page) := by
      rw [Bool.eq_iff_iff]
      simp [Segment.mem_pages, and_comm]
    have here : spanned [s] page = s.spans page := by simp [spanned]
    rw [taken, spanned_append, here]
    cases spanned earlier page <;> cases s.spans page <;> rfl

/-- The pages that the image touches, segment by segment, each where it is touched first. -/
def touchedPages (image : ExecutableImage) : List Page :=
  (image.memoryHeaders.flatMap ProgramHeader.pages).eraseDups

theorem Planned.freshPages_eq {segments : List Segment} (h : image.Planned mapped segments) :
    freshPages [] segments = image.touchedPages := by
  rw [ExecutableImage.freshPages_eq, h.segments_eq, touchedPages, List.flatMap_map]
  simp only [spanned, List.any_nil, Bool.not_false, List.filter_true]
  congr 1
  apply List.flatMap_congr
  intro h hm
  exact ProgramHeader.pages_segment (memorySize_pos hm)

variable {π : Type} [Platform π] {space : AddressSpace} {p q r : π} {page : Page}
  {pages : List Page} {e : ImageError} {f : Frame}

/-- There is a frame for each of the pages, which can be mapped to it. -/
inductive Provides (space : AddressSpace) (user : Bool) : π → List Page → π → Prop where
  | done {p : π} : Provides space user p [] p
  | next {p q r s : π} {page : Page} {pages : List Page} {f : Frame}
      (frame : allocateFrame p = (some f, q)) (mapped : mapPage space page f user q = (.ok (), r))
      (rest : Provides space user r pages s) : Provides space user p (page :: pages) s

/-- Not all of the pages can be provided for, and this is the error at the first one that cannot. -/
inductive Refuses (space : AddressSpace) (user : Bool) : π → List Page → ImageError → Prop where
  | noFrame {p q : π} {page : Page} {pages : List Page} (empty : allocateFrame p = (none, q)) :
      Refuses space user p (page :: pages) .outOfMemory
  | notMapped {p q r : π} {page : Page} {pages : List Page} {f : Frame} {e : MapError}
      (frame : allocateFrame p = (some f, q))
      (failed : mapPage space page f user q = (.error e, r)) :
      Refuses space user p (page :: pages) (.mapFailed e)
  | later {p q r : π} {page : Page} {pages : List Page} {f : Frame} {e : ImageError}
      (frame : allocateFrame p = (some f, q)) (mapped : mapPage space page f user q = (.ok (), r))
      (rest : Refuses space user r pages e) : Refuses space user p (page :: pages) e

theorem Provides.mapAllFresh_eq (h : Provides space user p pages q) (done : List Page) :
    mapAllFresh space user (fun _ _ => false) pages done p = (.ok (), q) := by
  induction h generalizing done with
  | done => rfl
  | next frame mapped _ ih => simp [mapAllFresh, mapFresh, frame, mapped, ih]

theorem Refuses.mapAllFresh_eq (h : Refuses space user p pages e) (done : List Page) :
    ∃ cause, (mapAllFresh space user (fun _ _ => false) pages done p).1 = .error cause ∧
      mapError cause = e := by
  induction h generalizing done with
  | noFrame empty => exact ⟨none, by simp [mapAllFresh, mapFresh, empty], rfl⟩
  | notMapped frame failed =>
    exact ⟨some _, by simp [mapAllFresh, mapFresh, frame, failed], rfl⟩
  | later frame mapped _ ih => simpa [mapAllFresh, mapFresh, frame, mapped] using ih _

theorem provides_or_refuses (space : AddressSpace) (user : Bool) (pages : List Page) (p : π) :
    (∃ q, Provides space user p pages q) ∨ ∃ e, Refuses space user p pages e := by
  induction pages generalizing p with
  | nil => exact .inl ⟨p, .done⟩
  | cons page pages ih =>
    rcases frame : allocateFrame p with ⟨none | f, q⟩
    · exact .inr ⟨_, .noFrame frame⟩
    · rcases mapped : mapPage space page f user q with ⟨e | _, r⟩
      · exact .inr ⟨_, .notMapped frame mapped⟩
      · obtain ⟨s, rest⟩ | ⟨e, rest⟩ := ih r
        · exact .inl ⟨s, .next frame mapped rest⟩
        · exact .inr ⟨e, .later frame mapped rest⟩

theorem Provides.not_refuses (h : Provides space user p pages q) (e : ImageError) :
    ¬ Refuses space user p pages e := by
  intro refuses
  obtain ⟨cause, failed, -⟩ := refuses.mapAllFresh_eq []
  rw [h.mapAllFresh_eq []] at failed
  cases failed

theorem Refuses.unique {e' : ImageError} (h : Refuses space user p pages e)
    (h' : Refuses space user p pages e') : e = e' := by
  obtain ⟨cause, failed, rfl⟩ := h.mapAllFresh_eq []
  obtain ⟨cause', failed', rfl⟩ := h'.mapAllFresh_eq []
  rw [failed] at failed'
  cases failed'
  rfl

/-! ### Loads -/

/-- A load whose segments stay off the edge of the lower half succeeds exactly if all conditions hold
and each of its pages is provided for. It fails with an error exactly if this is the one of the first
condition that does not hold, or if all hold and it is the one at the first page refused. -/
theorem load_succeeds_iff (image : ExecutableImage) (space : AddressSpace) (user : Bool) (p : π)
    (inner : ∀ h ∈ image.memoryHeaders, h.KeepsOffEdge) :
    let conditions := image.requirements user (isMapped p space)
    ((∃ info, (image.load space user p).1 = .ok info) ↔
      (∀ r ∈ conditions, r.holds) ∧ ∃ q, Provides space user p image.touchedPages q) ∧
    ∀ e, (image.load space user p).1 = .error e ↔
      FirstFault conditions e ∨
        (∀ r ∈ conditions, r.holds) ∧ Refuses space user p image.touchedPages e := by
  intro conditions
  have decided : Decides conditions (image.plan user (isMapped p space)) := decides_plan inner
  rw [load]
  rcases planned : image.plan user (isMapped p space) with ⟨entry, segments⟩ | cause | _
  · have all : ∀ r ∈ conditions, r.holds := decided.ok_iff.mp ⟨_, planned⟩
    have faultless (e : ImageError) : ¬ FirstFault conditions e := fun fault => fault.not_all all
    simp only [faultless, false_or, and_iff_right all, (plan_ok planned).freshPages_eq]
    obtain ⟨q, provides⟩ | ⟨e, refuses⟩ := provides_or_refuses space user image.touchedPages p
    · simp only [provides.mapAllFresh_eq []]
      constructor
      · exact ⟨fun _ => ⟨q, provides⟩, fun _ => ⟨_, rfl⟩⟩
      · intro e
        simp [provides.not_refuses e]
    · obtain ⟨cause, failed, rfl⟩ := refuses.mapAllFresh_eq []
      rcases made : mapAllFresh space user (fun _ _ => false) image.touchedPages [] p with
        ⟨reason | _, r⟩ <;> rw [made] at failed <;> cases failed
      constructor
      · simp only [reduceCtorEq, exists_false, false_iff]
        rintro ⟨q, provides⟩
        exact provides.not_refuses _ refuses
      · intro e
        rw [Outcome.error.injEq]
        exact ⟨fun same => same ▸ refuses, refuses.unique⟩
  · have fault : FirstFault conditions cause := (decided.error_iff cause).mp planned
    constructor
    · simp [fault.not_all]
    · intro e
      rw [← decided.error_iff, planned]
      simp [fault.not_all]
  · exact absurd planned decided.not_aborted

/-- The two pages of the image are asked for, and the second one is refused. -/
theorem load_refused_jammed :
    (∀ h ∈ straddling.memoryHeaders, h.KeepsOffEdge) ∧
      straddling.touchedPages = [⟨0x400⟩, ⟨0x401⟩] ∧
      Refuses ⟨0x1000⟩ true jammed straddling.touchedPages (.mapFailed .parentEntryHugePage) := by
  have inner : ∀ h ∈ straddling.memoryHeaders, h.KeepsOffEdge := by decide +kernel
  have failed : (straddling.load ⟨0x1000⟩ true jammed).1 =
      .error (.mapFailed .parentEntryHugePage) := by decide +kernel
  have planned : straddling.plan true (isMapped jammed ⟨0x1000⟩) =
      .ok (0x400000, [⟨0x400ffe, 8, 120, 4⟩]) := by decide +kernel
  have all := (decides_plan inner).ok_iff.mp ⟨_, planned⟩
  obtain ⟨-, errors⟩ := load_succeeds_iff straddling ⟨0x1000⟩ true jammed inner
  refine ⟨inner, by decide +kernel, ?_⟩
  rcases (errors _).mp failed with fault | ⟨-, refused⟩
  · exact absurd all fault.not_all
  · exact refused

end ExecutableImage
end KernelCore
