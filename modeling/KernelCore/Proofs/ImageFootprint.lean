import KernelCore.ImageLoader
import KernelCore.Proofs.MappedMemory

/-!
# The footprint of an image

Which memory an image takes: the addresses that its program headers cover and the pages that these
lie in. A plan that is made lists the segments of just these headers, all of whose bytes the image
has and none of whose pages is mapped yet, and `freshPages` lists just these pages.
-/
namespace KernelCore

namespace ProgramHeader

/-- The segment of the header takes the address. -/
def Covers (h : ProgramHeader) (a : Nat) : Prop := h.address ≤ a ∧ a < h.address + h.memorySize

def segment (h : ProgramHeader) : Segment := ⟨h.address, h.memorySize, h.offset, h.fileSize⟩

/-- The image has the bytes that go to the start of the segment, and the segment takes them. -/
def Fits (h : ProgramHeader) (image : ExecutableImage) : Prop :=
  h.fileSize ≤ h.memorySize ∧ h.offset + h.fileSize ≤ image.size

end ProgramHeader

namespace Segment

theorem spans_iff {s : Segment} (hs : 0 < s.size) {page : Page} :
    s.spans page = true ↔ page ∈ pagesTouched s.start s.size := by
  rw [mem_pagesTouched]
  simp only [spans, Bool.and_eq_true, decide_eq_true_eq]
  unfold firstPage lastPage pageSize
  constructor
  · rintro ⟨hfirst, hlast⟩
    refine ⟨max s.start (page.number * 4096), by omega, by omega, ?_⟩
    rw [Page.containing_eq_iff, Page.start, pageSize]
    omega
  · rintro ⟨x, hax, hx, rfl⟩
    simp only [Page.containing, pageSize]
    omega

theorem number_lt_of_spans {s : Segment} {page : Page} (h : s.spans page = true) :
    s.firstPage ≤ page.number ∧ page.number < s.firstPage + s.pageCount := by
  simp only [spans, Bool.and_eq_true, decide_eq_true_eq] at h
  rw [pageCount]
  omega

end Segment

theorem scanPages_clear {taken : Page → Bool} {count first : Nat}
    (h : scanPages taken count first = .clear) {page : Page} (hfirst : first ≤ page.number)
    (hlast : page.number < first + count) : taken page = false := by
  induction count generalizing first with
  | zero => omega
  | succ count ih =>
    rw [scanPages] at h
    split at h
    · cases h
    · split at h
      · cases h
      · rename_i htaken
        by_cases hp : page.number = first
        · cases page
          cases hp
          exact Bool.eq_false_iff.mpr htaken
        · exact ih h (by omega) (by omega)

namespace ExecutableImage

theorem segment?_ok {image : ExecutableImage} {user : Bool} {h : ProgramHeader}
    {r : Option Segment} (hs : image.segment? user h = .ok r) :
    h.Fits image ∧ r = if 0 < h.memorySize then some h.segment else none := by
  rw [segment?] at hs
  split at hs
  · cases hs
  · rename_i hsize
    split at hs
    · cases hs
    · rename_i hbounds
      have fits : h.Fits image := ⟨Nat.le_of_not_lt hsize, Nat.le_of_not_lt hbounds⟩
      split at hs
      · rename_i hzero
        cases hs
        exact ⟨fits, by rw [if_neg (by omega)]⟩
      · rename_i hpos
        split at hs
        · cases hs
        · split at hs
          · cases hs
          · cases hs
            exact ⟨fits, by rw [if_pos (Nat.pos_of_ne_zero hpos), ProgramHeader.segment]⟩

theorem spanned_append (earlier more : List Segment) (page : Page) :
    spanned (earlier ++ more) page = (spanned earlier page || spanned more page) :=
  List.any_append

/-- A plan that is made lists the segments of all headers that take memory. -/
theorem planSegments_ok {image : ExecutableImage} {user : Bool} {mapped : Page → Bool}
    {headers : List ProgramHeader} {earlier segments : List Segment}
    (h : image.planSegments user mapped headers earlier = .ok segments)
    (clear : ∀ page, spanned earlier page = true → mapped page = false) :
    segments = earlier ++ (headers.filter fun h => 0 < h.memorySize).map ProgramHeader.segment ∧
      (∀ h ∈ headers, h.Fits image) ∧
      ∀ page, spanned segments page = true → mapped page = false := by
  induction headers generalizing earlier with
  | nil =>
    cases h
    exact ⟨(List.append_nil _).symm, nofun, clear⟩
  | cons header headers ih =>
    rw [planSegments] at h
    split at h
    · cases h
    · rename_i hs
      obtain ⟨fits, hnone⟩ := segment?_ok hs
      obtain ⟨hsegments, all, hclear⟩ := ih h clear
      have hpos : ¬ 0 < header.memorySize := fun hpos => by
        rw [if_pos hpos] at hnone
        cases hnone
      refine ⟨?_, List.forall_mem_cons.mpr ⟨fits, all⟩, hclear⟩
      rw [List.filter_cons_of_neg (by simpa using hpos)]
      exact hsegments
    · rename_i s hs
      obtain ⟨fits, hsome⟩ := segment?_ok hs
      have hpos : 0 < header.memorySize := Nat.pos_of_ne_zero fun hzero => by
        rw [if_neg (by omega)] at hsome
        cases hsome
      rw [if_pos hpos] at hsome
      obtain rfl := Option.some.inj hsome
      split at h
      · cases h
      · cases h
      · rename_i hscan
        -- The pages of this segment are not mapped, or an earlier segment has them.
        have clear' : ∀ page, spanned (earlier ++ [header.segment]) page = true →
            mapped page = false := by
          intro page hp
          by_cases he : spanned earlier page = true
          · exact clear page he
          · rw [spanned_append, Bool.or_eq_true] at hp
            have hspans : header.segment.spans page = true := by
              rcases hp with hp | hp
              · exact absurd hp he
              · simpa [spanned] using hp
            obtain ⟨hfirst, hlast⟩ := Segment.number_lt_of_spans hspans
            have hfree := scanPages_clear hscan hfirst hlast
            rw [Bool.eq_false_iff.mpr he] at hfree
            simpa using hfree
        obtain ⟨hsegments, all, hclear⟩ := ih h clear'
        refine ⟨?_, List.forall_mem_cons.mpr ⟨fits, all⟩, hclear⟩
        rw [List.filter_cons_of_pos (by simpa using hpos), List.map_cons, hsegments,
          List.append_assoc, List.singleton_append]

/-- The program headers of the loadable segments that take memory, in table order. -/
def memoryHeaders (image : ExecutableImage) : List ProgramHeader :=
  match image.header with
  | .ok h => (image.loadHeaders h).filter fun h => 0 < h.memorySize
  | .error _ => []

/-- A segment of the image takes an address of the page. -/
def Touches (image : ExecutableImage) (page : Page) : Prop :=
  ∃ h ∈ image.memoryHeaders, ∃ a, h.Covers a ∧ Page.containing a = page

theorem memorySize_pos {image : ExecutableImage} {h : ProgramHeader}
    (hm : h ∈ image.memoryHeaders) : 0 < h.memorySize := by
  rw [memoryHeaders] at hm
  split at hm
  · simpa using (List.mem_filter.mp hm).2
  · cases hm

theorem spanned_iff {image : ExecutableImage} {page : Page} :
    spanned (image.memoryHeaders.map ProgramHeader.segment) page = true ↔ image.Touches page := by
  simp only [spanned, List.any_map, List.any_eq_true, Touches, Function.comp_apply]
  refine exists_congr fun h => and_congr_right fun hm => ?_
  rw [Segment.spans_iff (memorySize_pos hm), mem_pagesTouched]
  simp only [ProgramHeader.Covers, and_assoc]
  rfl

/-- What a plan that is made says of the image. -/
structure Planned (image : ExecutableImage) (mapped : Page → Bool) (segments : List Segment) :
    Prop where
  segments_eq : segments = image.memoryHeaders.map ProgramHeader.segment
  fits : ∀ h ∈ image.memoryHeaders, h.Fits image
  clear : ∀ page, image.Touches page → mapped page = false

theorem plan_ok {image : ExecutableImage} {user : Bool} {mapped : Page → Bool} {entry : Nat}
    {segments : List Segment} (h : image.plan user mapped = .ok (entry, segments)) :
    image.Planned mapped segments := by
  rw [plan] at h
  split at h
  · cases h
  · rename_i header hheader
    have hmemory : image.memoryHeaders =
        (image.loadHeaders header).filter fun h => 0 < h.memorySize := by
      rw [memoryHeaders, hheader]
    split at h
    · cases h
    · split at h
      · cases h
      · split at h
        · rename_i planned hplan
          cases h
          obtain ⟨hsegments, fits, hclear⟩ := planSegments_ok hplan nofun
          rw [List.nil_append, ← hmemory] at hsegments
          refine ⟨hsegments, fun h hm => fits h ?_, fun page hp => hclear page ?_⟩
          · rw [hmemory] at hm
            exact List.mem_of_mem_filter hm
          · rw [hsegments]
            exact spanned_iff.mpr hp
        · cases h
        · cases h

theorem mem_freshPages {earlier segments : List Segment} {page : Page} :
    page ∈ freshPages earlier segments ↔
      spanned earlier page = false ∧ spanned segments page = true := by
  induction segments generalizing earlier with
  | nil => simp [freshPages, spanned]
  | cons s segments ih =>
    rw [freshPages, List.mem_append, List.mem_filter, Segment.mem_pages, ih, spanned_append]
    have hcons : spanned (s :: segments) page = (s.spans page || spanned segments page) :=
      List.any_cons
    have hone : spanned [s] page = s.spans page := by simp [spanned]
    rw [hcons, hone]
    cases spanned earlier page <;> cases s.spans page <;> simp

theorem Planned.mem_freshPages {image : ExecutableImage} {mapped : Page → Bool}
    {segments : List Segment} (h : image.Planned mapped segments) {page : Page} :
    page ∈ freshPages [] segments ↔ image.Touches page := by
  rw [ExecutableImage.mem_freshPages, h.segments_eq, spanned_iff]
  exact and_iff_right rfl

/-- The bytes of a program header of a loadable segment. -/
def headerBytes (h : ProgramHeader) : List UInt8 :=
  LittleEndian.toBytes 4 loadable ++ LittleEndian.toBytes 4 7 ++ LittleEndian.toBytes 8 h.offset ++
    LittleEndian.toBytes 8 h.address ++ LittleEndian.toBytes 8 h.address ++
    LittleEndian.toBytes 8 h.fileSize ++ LittleEndian.toBytes 8 h.memorySize ++
    LittleEndian.toBytes 8 pageSize

/-- The image with this entry point, these program headers and then these bytes. -/
def written (entry : Nat) (headers : List ProgramHeader) (bytes : List UInt8) :
    ExecutableImage where
  bytes := ([0x7f, 0x45, 0x4c, 0x46, 2, 1, 1, 0] ++ LittleEndian.toBytes 8 0 ++
    LittleEndian.toBytes 2 2 ++ LittleEndian.toBytes 2 62 ++ LittleEndian.toBytes 4 1 ++
    LittleEndian.toBytes 8 entry ++ LittleEndian.toBytes 8 headerSize ++
    LittleEndian.toBytes 12 0 ++ LittleEndian.toBytes 2 headerSize ++
    LittleEndian.toBytes 2 programHeaderSize ++ LittleEndian.toBytes 2 headers.length ++
    LittleEndian.toBytes 6 0 ++ headers.flatMap headerBytes ++ bytes).toArray

end ExecutableImage
end KernelCore
