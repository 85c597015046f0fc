import KernelCore.Proofs.LoadAtomicity

/-!
# The memory of a loaded image

What a program finds in memory once its image is loaded. Segments are written in table order, each
cleared as a whole before its bytes go in, so at every address the last segment that takes it
decides: it leaves a byte of the image or zero, whatever the frames held before. Every page touched
is mapped once. Since the pages lie in frames of their own, nothing else is written to.
-/
namespace KernelCore

namespace Segment

/-- The segment takes the address. -/
def Covers (s : Segment) (a : Nat) : Prop := s.start ≤ a ∧ a < s.start + s.size

theorem containing_mem_pagesTouched {s : Segment} {a : Nat} (h : s.Covers a) :
    Page.containing a ∈ pagesTouched s.start s.size := mem_pagesTouched.mpr ⟨a, h.1, h.2, rfl⟩

end Segment

namespace ExecutableImage

/-- The byte at this distance from the start of a segment that was filled. -/
def initialByte (image : ExecutableImage) (s : Segment) (i : Nat) : UInt8 :=
  if i < s.fileSize then (image.contents s).getD i 0 else 0

variable {π : Type} [Platform π] [LawfulMemory π] {image : ExecutableImage}

/-- Filling a segment is one store, of the image's bytes and zeros after them. -/
theorem stored_fillSegment {t : Traced π} {s : Segment}
    (steady : Steady (π := Traced π) activeSpace) (fits : s.fileSize ≤ s.size)
    (whole : (image.contents s).size = s.fileSize)
    (sep : (mappedMemory t).Separate (activeSpace t) (· ∈ pagesTouched s.start s.size)) :
    (∃ made, Fills t (image.fillSegment s t) made ∧ ∀ a, .unreachable a ∉ made) ∧
      (mappedMemory t).Stored (mappedMemory (image.fillSegment s t)) (activeSpace t) s.start s.size
        (image.initialByte s) := by
  obtain ⟨reach, cleared⟩ := LawfulMemory.zeroRange sep
  have zeroed := fills_zeroRange s.start s.size t
  rw [reach] at zeroed
  have active := steady.view_zeroRange s.start s.size t
  rw [fillSegment, LawfulMemory.note]
  split
  · rename_i hempty
    have zeros : image.initialByte s = fun _ => 0 := by
      funext i
      rw [initialByte, if_neg (by omega)]
    rw [zeros]
    exact ⟨⟨_, zeroed.trans (fills_note _ _), by simp [Traced.transfer]⟩, cleared⟩
  · have sep' : (mappedMemory (zeroRange s.start s.size t).2).Separate
        (activeSpace (zeroRange s.start s.size t).2)
        (· ∈ pagesTouched s.start (image.contents s).size) := by
      rw [active, whole]
      exact (sep.congr cleared.backing).mono fun _ => mem_pagesTouched_of_le fits
    obtain ⟨reach', copied⟩ := LawfulMemory.copyIn sep'
    rw [active, whole] at copied
    have filled := fills_copyIn s.start (image.contents s) (zeroRange s.start s.size t).2
    rw [reach'] at filled
    exact ⟨⟨_, (zeroed.trans filled).trans (fills_note _ _), by simp [Traced.transfer]⟩,
      cleared.overwrite copied fits sep⟩

/-- Filling segments leaves the bytes that none of them takes. -/
theorem byte_fillSegments_outside {pages : Page → Prop} {segments : List Segment} (t : Traced π)
    (steady : Steady (π := Traced π) activeSpace)
    (fits : ∀ s ∈ segments, s.fileSize ≤ s.size ∧ (image.contents s).size = s.fileSize)
    (sep : (mappedMemory t).Separate (activeSpace t) pages)
    (touched : ∀ s ∈ segments, ∀ page ∈ pagesTouched s.start s.size, pages page) {a : Nat}
    (ha : pages (.containing a)) (out : ∀ s ∈ segments, ¬ s.Covers a) :
    (mappedMemory (segments.foldl (fun p s => image.fillSegment s p) t)).byte (activeSpace t) a =
      (mappedMemory t).byte (activeSpace t) a := by
  induction segments generalizing t with
  | nil => rfl
  | cons s segments ih =>
    obtain ⟨⟨fits, whole⟩, fits'⟩ := List.forall_mem_cons.mp fits
    obtain ⟨touched, touched'⟩ := List.forall_mem_cons.mp touched
    obtain ⟨out, out'⟩ := List.forall_mem_cons.mp out
    obtain ⟨-, stored⟩ := stored_fillSegment steady fits whole (sep.mono touched)
    have active : activeSpace (image.fillSegment s t) = activeSpace t :=
      steady.filling.view_fillSegment image s t
    have sep' : (mappedMemory (image.fillSegment s t)).Separate
        (activeSpace (image.fillSegment s t)) pages := by
      rw [active]
      exact sep.congr stored.backing
    have rest := ih (image.fillSegment s t) fits' sep' touched' out'
    rw [active] at rest
    rw [List.foldl_cons, rest]
    exact stored.byte_outside sep touched ha out

/-- These segments have been filled, one after the other, in pages that are mapped apart. -/
structure Filled (image : ExecutableImage) (pages : Page → Prop) (t u : Traced π)
    (segments : List Segment) : Prop where
  within : ∀ s ∈ segments, ∀ page ∈ pagesTouched s.start s.size, pages page
  calls : ∃ made, Fills t u made ∧ ∀ a, .unreachable a ∉ made
  active : activeSpace u = activeSpace t
  last : ∀ before s after, segments = before ++ s :: after → ∀ a, s.Covers a →
    (∀ later ∈ after, ¬ later.Covers a) →
    (mappedMemory u).byte (activeSpace t) a = some (image.initialByte s (a - s.start))
  others : ∀ f, (∀ page b, pages page → (mappedMemory t).backing (activeSpace t) page = some b →
    b.frame ≠ f) → ∀ o < pageSize,
    ((mappedMemory u).contents f).byte o = ((mappedMemory t).contents f).byte o

namespace Filled

variable {pages : Page → Prop} {t u : Traced π} {done segments : List Segment}

theorem refl (image : ExecutableImage) (pages : Page → Prop) (t : Traced π) :
    Filled image pages t t [] where
  within := nofun
  calls := ⟨[], .refl t, nofun⟩
  active := rfl
  last before s after h := by cases before <;> cases h
  others _ _ _ _ := rfl

/-- One more segment. Where it lies it decides, and elsewhere the segments before it still do. -/
theorem fillSegment {s : Segment} (h : Filled image pages t u done)
    (steady : Steady (π := Traced π) activeSpace) (fits : s.fileSize ≤ s.size)
    (whole : (image.contents s).size = s.fileSize)
    (sep : (mappedMemory t).Separate (activeSpace t) pages)
    (touched : ∀ page ∈ pagesTouched s.start s.size, pages page) :
    Filled image pages t (image.fillSegment s u) (done ++ [s]) := by
  obtain ⟨made, filled, reached⟩ := h.calls
  have sep' : (mappedMemory u).Separate (activeSpace u) pages := by
    rw [h.active]
    exact sep.congr filled.backing
  obtain ⟨⟨more, filled', reached'⟩, stored⟩ :=
    stored_fillSegment steady fits whole (sep'.mono touched)
  rw [h.active] at stored sep'
  refine ⟨?_, ⟨made ++ more, filled.trans filled', fun a ha => ?_⟩, ?_, ?_, ?_⟩
  · intro r hr
    rcases List.mem_append.mp hr with hr | hr
    · exact h.within r hr
    · exact List.mem_singleton.mp hr ▸ touched
  · exact (List.mem_append.mp ha).elim (reached a) (reached' a)
  · rw [steady.filling.view_fillSegment, h.active]
  · intro before r after hsplit a hr later
    -- Either the new segment is the last one that takes the address, or it does not take it.
    rcases List.eq_nil_or_concat after with rfl | ⟨after, q, rfl⟩
    · obtain ⟨-, hlast⟩ := List.append_inj' hsplit rfl
      obtain rfl : s = r := List.head_eq_of_cons_eq hlast
      exact stored.inside a hr.1 hr.2
    · rw [List.concat_eq_append] at hsplit later
      rw [← List.cons_append, ← List.append_assoc] at hsplit
      obtain ⟨hdone, hlast⟩ := List.append_inj' hsplit rfl
      obtain rfl : s = q := List.head_eq_of_cons_eq hlast
      have hr' : r ∈ done := hdone ▸ by simp
      have hpage := h.within r hr' _ (Segment.containing_mem_pagesTouched hr)
      rw [stored.byte_outside sep' touched hpage (later s (by simp))]
      exact h.last before r after hdone a hr fun l hl => later l (by simp [hl])
  · intro f apart o ho
    refine (stored.outside f o ho fun page b hb hf range => ?_).trans (h.others f apart o ho)
    rw [filled.backing] at hb
    have hpage : page ∈ pagesTouched s.start s.size :=
      mem_pagesTouched.mpr ⟨_, range.1, range.2, page.containing_start_add ho⟩
    exact apart page b (touched page hpage) hb hf

theorem fillSegments (h : Filled image pages t u done)
    (steady : Steady (π := Traced π) activeSpace)
    (fits : ∀ s ∈ segments, s.fileSize ≤ s.size ∧ (image.contents s).size = s.fileSize)
    (sep : (mappedMemory t).Separate (activeSpace t) pages)
    (touched : ∀ s ∈ segments, ∀ page ∈ pagesTouched s.start s.size, pages page) :
    Filled image pages t (segments.foldl (fun p s => image.fillSegment s p) u)
      (done ++ segments) := by
  induction segments generalizing u done with
  | nil => rwa [List.append_nil]
  | cons s segments ih =>
    obtain ⟨⟨fits, whole⟩, fits'⟩ := List.forall_mem_cons.mp fits
    obtain ⟨touched, touched'⟩ := List.forall_mem_cons.mp touched
    rw [List.append_cons]
    exact ih (h.fillSegment steady fits whole sep touched) fits' touched'

end Filled

/-- What a load leaves in memory. -/
structure LoadedInto (image : ExecutableImage) (space : AddressSpace) (user : Bool)
    (t u : Traced π) (info : LoadedImage) : Prop where
  /-- At every address of a segment the last one that takes the address decides. -/
  bytes : ∀ before header after, image.memoryHeaders = before ++ header :: after →
    ∀ a, header.Covers a → (∀ later ∈ after, ¬ later.Covers a) →
    ∃ b, (mappedMemory u).byte space a = some b ∧
      if a - header.address < header.fileSize
      then image.bytes[header.offset + (a - header.address)]? = some b else b = 0
  /-- Every page that a segment touches was mapped once. -/
  pages : ∃ pages : List Page, pages.Nodup ∧ (∀ page, page ∈ pages ↔ image.Touches page) ∧
    mappedPages (callsBetween t u) = pages.map (fun page => (space, page, user)) ∧
    info.pagesMapped = pages.length
  backed : ∀ page, image.Touches page →
    ∃ f ∈ taken (callsBetween t u), (mappedMemory u).backing space page = some ⟨f, user⟩
  reached : ∀ a, .unreachable a ∉ callsBetween t u
  segments : info.segments = image.memoryHeaders.length
  /-- Whatever was mapped is mapped as it was, and its bytes are the same. -/
  kept : ∀ s page b, (mappedMemory t).backing s page = some b →
    (mappedMemory u).backing s page = some b ∧
    ∀ a, Page.containing a = page → (mappedMemory u).byte s a = (mappedMemory t).byte s a

theorem size_contents {h : ProgramHeader} (fits : h.Fits image) :
    (image.contents h.segment).size = h.fileSize := by
  rw [contents, Array.size_extract]
  change min (h.offset + h.fileSize) image.bytes.size - h.offset = h.fileSize
  have := fits.2
  rw [size] at this
  omega

/-- The image has all bytes of its segments. -/
theorem whole_of_fits (fits : ∀ h ∈ image.memoryHeaders, h.Fits image) :
    ∀ s ∈ image.memoryHeaders.map ProgramHeader.segment,
      s.fileSize ≤ s.size ∧ (image.contents s).size = s.fileSize := by
  intro s hs
  obtain ⟨header, hm, rfl⟩ := List.mem_map.mp hs
  exact ⟨(fits header hm).1, size_contents (fits header hm)⟩

theorem initialByte_segment {h : ProgramHeader} (fits : h.Fits image) (i : Nat) :
    if i < h.fileSize then image.bytes[h.offset + i]? = some (image.initialByte h.segment i)
    else image.initialByte h.segment i = 0 := by
  split
  · rename_i hi
    have hbytes : h.offset + i < image.bytes.size := by
      have := fits.2
      rw [size] at this
      omega
    have hi' : i < (image.contents h.segment).size := by rwa [size_contents fits]
    have hbyte : image.initialByte h.segment i = (image.contents h.segment).getD i 0 := if_pos hi
    rw [hbyte, Array.getElem?_eq_getElem hbytes, Array.getD_eq_getD_getElem?,
      Array.getElem?_eq_getElem hi', Option.getD_some]
    exact congrArg some (Array.getElem_extract _).symm
  · rename_i hi
    exact if_neg hi

section Mapped

variable {space : AddressSpace} {user : Bool} {t u v : Traced π} {entries : List (Page × Frame)}

theorem touches_of_mem {s : Segment} (hs : s ∈ image.memoryHeaders.map ProgramHeader.segment)
    {page : Page} (hp : page ∈ pagesTouched s.start s.size) : image.Touches page := by
  obtain ⟨h, hm, rfl⟩ := List.mem_map.mp hs
  obtain ⟨a, first, past, rfl⟩ := mem_pagesTouched.mp hp
  exact ⟨h, hm, a, ⟨first, past⟩, rfl⟩

theorem Mapped.filled (h : image.Mapped space user t v entries)
    (steady : Steady (π := Traced π) activeSpace) (active : activeSpace v = space)
    (once : (entries.map Prod.snd).Nodup) :
    Filled image image.Touches v ((image.memoryHeaders.map ProgramHeader.segment).foldl
      (fun p s => image.fillSegment s p) v) (image.memoryHeaders.map ProgramHeader.segment) := by
  have sep : (mappedMemory v).Separate (activeSpace v) image.Touches := by
    rw [active]
    exact (h.grown.separate once).mono fun page => (h.touched page).mpr
  exact (Filled.refl image image.Touches v).fillSegments steady (whole_of_fits h.fits) sep fun _ => touches_of_mem

/-- At an address of a segment lies what its program header says. -/
theorem Filled.byte_of_last {segments : List Segment} (h : Filled image image.Touches v u segments)
    (hs : segments = image.memoryHeaders.map ProgramHeader.segment)
    (fits : ∀ h ∈ image.memoryHeaders, h.Fits image) {before after : List ProgramHeader}
    {header : ProgramHeader} (split : image.memoryHeaders = before ++ header :: after) {a : Nat}
    (ha : header.Covers a) (later : ∀ l ∈ after, ¬ l.Covers a) :
    ∃ b, (mappedMemory u).byte (activeSpace v) a = some b ∧
      if a - header.address < header.fileSize
      then image.bytes[header.offset + (a - header.address)]? = some b else b = 0 := by
  have hm : header ∈ image.memoryHeaders := split ▸ by simp
  rw [split, List.map_append, List.map_cons] at hs
  refine ⟨_, h.last _ _ _ hs a ha fun s hs => ?_, initialByte_segment (fits header hm) _⟩
  obtain ⟨l, hl, rfl⟩ := List.mem_map.mp hs
  exact later l hl

theorem Mapped.callsBetween_eq (h : image.Mapped space user t v entries) {made : List Call}
    (filled : Fills v u made) : callsBetween t u = freshCalls space user entries ++ made :=
  KernelCore.callsBetween_eq (h.calls_eq filled)

theorem Mapped.taken_eq (h : image.Mapped space user t v entries) {made : List Call}
    (filled : Fills v u made) : taken (callsBetween t u) = entries.map Prod.snd := by
  rw [h.callsBetween_eq filled, taken_append, taken_freshCalls, filled.taken_eq, List.append_nil]

/-- A page that was mapped before is not one of the image, and neither is its frame. -/
theorem Mapped.kept (h : image.Mapped space user t v entries)
    {segments : List Segment} (filled : Filled image image.Touches v u segments)
    (active : activeSpace v = space) {s : AddressSpace} {page : Page} {b : Backing}
    (hb : (mappedMemory t).backing s page = some b) (unused : b.frame ∉ entries.map Prod.snd) :
    (mappedMemory u).backing s page = some b ∧
      ∀ a, Page.containing a = page → (mappedMemory u).byte s a = (mappedMemory t).byte s a := by
  have apart : ¬ (s = space ∧ page ∈ entries.map Prod.fst) := by
    rintro ⟨rfl, hp⟩
    obtain ⟨e, he, rfl⟩ := List.mem_map.mp hp
    rw [h.grown.free e he] at hb
    cases hb
  obtain ⟨made, fills, -⟩ := filled.calls
  have still : (mappedMemory u).backing s page = some b := by
    rw [fills.backing, h.grown.others s page apart, hb]
  have elsewhere : ∀ page' b', image.Touches page' →
      (mappedMemory v).backing (activeSpace v) page' = some b' → b'.frame ≠ b.frame := by
    intro page' b' touched hb' hframe
    obtain ⟨e, he, rfl⟩ := List.mem_map.mp ((h.touched page').mpr touched)
    rw [active, h.grown.backed e he] at hb'
    cases hb'
    exact unused (hframe ▸ List.mem_map_of_mem he)
  refine ⟨still, ?_⟩
  rintro a rfl
  have contents := h.grown.quiet.contents b.frame (by rwa [taken_freshCalls])
  rw [MappedMemory.byte, MappedMemory.byte, still, hb]
  refine congrArg some ((filled.others b.frame elsewhere _ (Nat.mod_lt _ (by decide))).trans ?_)
  rw [contents]

end Mapped

/-- The image is in memory as its program headers say, and nothing else has changed. -/
theorem load_fills_memory [LawfulPlatform π] {space : AddressSpace} {user : Bool} {t u : Traced π}
    {info : LoadedImage} (h : image.load space user t = (.ok info, u))
    (active : activeSpace t = space) (fresh : FreshFrames t u) :
    image.LoadedInto space user t u info := by
  have steady : Steady (π := Traced π) activeSpace := LawfulPlatform.steady_activeSpace
  have same := steady.view_load image space user t
  rw [h] at same
  obtain ⟨v, entries, mapped, segments, pages, rfl⟩ := load_ok h
  rw [steady.filling.view_fillSegments, active] at same
  obtain ⟨made, fills⟩ :=
    fills_fillSegments image (image.memoryHeaders.map ProgramHeader.segment) v
  have htaken := mapped.taken_eq fills
  have filled := mapped.filled steady same (htaken ▸ fresh.once)
  refine ⟨?_, ⟨entries.map Prod.fst, mapped.grown.nodup, mapped.touched, ?_, ?_⟩, ?_, ?_,
    segments, ?_⟩
  · intro before header after split a ha later
    rw [← same]
    exact filled.byte_of_last rfl mapped.fits split ha later
  · rw [mapped.callsBetween_eq fills, mappedPages_append, mappedPages_freshCalls,
      fills.mappedPages_eq, List.append_nil, List.map_map]
    rfl
  · rw [pages, List.length_map]
  · intro page touched
    obtain ⟨e, he, rfl⟩ := List.mem_map.mp ((mapped.touched page).mpr touched)
    rw [fills.backing]
    exact ⟨e.2, htaken ▸ List.mem_map_of_mem he, mapped.grown.backed e he⟩
  · intro a ha
    obtain ⟨made', fills', reached⟩ := filled.calls
    rw [mapped.callsBetween_eq fills', List.mem_append] at ha
    rcases ha with ha | ha
    · simp [freshCalls] at ha
    · exact reached a ha
  · intro s page b hb
    refine mapped.kept filled same hb fun hf => ?_
    exact fresh.unused b.frame (htaken ▸ hf) s page b hb rfl

/-- Two segments that share a page. The second one clears the end of the first one and fills a part
of what it has cleared. -/
def overlapping : ExecutableImage :=
  written 0x400000
    [⟨loadable, 176, 0x400ffe, 4, 0x1010⟩, ⟨loadable, 180, 0x402008, 2, 8⟩] [1, 2, 3, 4, 5, 6]

/-- A machine with used frames and one page mapped. -/
def inUse : Traced FlatMachine where
  machine :=
    { mappings := [⟨⟨0x1000⟩, ⟨0x500⟩, ⟨7⟩, false⟩], stored := [(⟨7⟩, .filled 9)], dirty := true }

theorem freshFrames_overlapping :
    FreshFrames inUse (overlapping.load ⟨0x1000⟩ true inUse).2 := by
  have htaken : taken (callsBetween inUse (overlapping.load ⟨0x1000⟩ true inUse).2) =
      [⟨0x1000⟩, ⟨0x1001⟩, ⟨0x1002⟩] := by decide +kernel
  refine ⟨by rw [htaken]; decide, ?_⟩
  rw [htaken]
  intro f hf space page b hb
  obtain ⟨e, he, rfl⟩ := Option.map_eq_some_iff.mp hb
  obtain rfl := List.mem_singleton.mp (FlatMachine.lookup_some he).1
  rintro rfl
  revert hf
  decide

theorem load_fills_memory_overlapping :
    (overlapping.load ⟨0x1000⟩ true inUse).1 = .ok ⟨0x400000, 2, 3⟩ ∧
      activeSpace inUse = ⟨0x1000⟩ ∧
      FreshFrames inUse (overlapping.load ⟨0x1000⟩ true inUse).2 ∧
      overlapping.LoadedInto ⟨0x1000⟩ true inUse (overlapping.load ⟨0x1000⟩ true inUse).2
        ⟨0x400000, 2, 3⟩ := by
  have loaded : (overlapping.load ⟨0x1000⟩ true inUse).1 = .ok ⟨0x400000, 2, 3⟩ := by
    decide +kernel
  have load : overlapping.load ⟨0x1000⟩ true inUse = (.ok ⟨0x400000, 2, 3⟩,
      (overlapping.load ⟨0x1000⟩ true inUse).2) := by rw [← loaded]
  exact ⟨loaded, rfl, freshFrames_overlapping, load_fills_memory load rfl freshFrames_overlapping⟩

end ExecutableImage
end KernelCore
