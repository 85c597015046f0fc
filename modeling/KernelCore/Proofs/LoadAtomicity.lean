import KernelCore.Proofs.CallLedger
import KernelCore.Proofs.ImageFootprint

/-!
# How loads end

A load ends with all its pages mapped, after which it only fills them, or it leaves no trace. What
is wrong with the image or with the pages it wants is found before the first call for a frame; from
then on only a frame or a page can be refused, and then all that was done is undone before the error
is returned.
-/
namespace KernelCore

namespace ExecutableImage

variable {π : Type} [Platform π] [LawfulMemory π] {image : ExecutableImage} {space : AddressSpace}
  {user : Bool} {t u : Traced π} {e : ImageError}

/-- The pages that the image touches have been mapped, these pages to these frames. -/
structure Mapped (image : ExecutableImage) (space : AddressSpace) (user : Bool) (t v : Traced π)
    (entries : List (Page × Frame)) : Prop where
  fits : ∀ h ∈ image.memoryHeaders, h.Fits image
  grown : Grown space user t v entries
  touched : ∀ page, page ∈ entries.map Prod.fst ↔ image.Touches page

theorem Mapped.calls_eq {v : Traced π} {entries : List (Page × Frame)} {made : List Call}
    (h : image.Mapped space user t v entries) (fills : Fills v u made) :
    u.calls = t.calls ++ (freshCalls space user entries ++ made) := by
  rw [fills.calls, h.grown.quiet.calls, List.append_assoc]

omit [LawfulMemory π] in
/-- The stages of a load that succeeds: a plan, pages for it, and their bytes. -/
theorem load_stages {p q : π} {info : LoadedImage}
    (h : image.load space user p = (.ok info, q)) :
    ∃ segments r, image.Planned (isMapped p space) segments ∧
      mapAllFresh space user (fun _ _ => false) (freshPages [] segments) [] p = (.ok (), r) ∧
      info.segments = segments.length ∧ info.pagesMapped = (freshPages [] segments).length ∧
      q = segments.foldl (fun p s => image.fillSegment s p) r := by
  rw [load] at h
  split at h
  · cases h
  · cases h
  · rename_i entry segments hplan
    dsimp only at h
    split at h
    · cases h
    · rename_i r hm
      cases h
      exact ⟨segments, r, plan_ok hplan, hm, rfl, rfl, rfl⟩

omit [LawfulMemory π] in
/-- A load fails before it has asked for anything, or while it maps pages. -/
theorem load_error_stages {p q : π} (h : image.load space user p = (.error e, q)) :
    q = p ∨ ∃ segments cause, image.Planned (isMapped p space) segments ∧ e = mapError cause ∧
      mapAllFresh space user (fun _ _ => false) (freshPages [] segments) [] p =
        (.error cause, q) := by
  rw [load] at h
  split at h
  · cases h
    exact .inl rfl
  · cases h
  · rename_i entry segments hplan
    dsimp only at h
    split at h
    · rename_i cause r hm
      cases h
      exact .inr ⟨segments, cause, plan_ok hplan, rfl, hm⟩
    · cases h

theorem Planned.mapped {mapped : Page → Bool} {segments : List Segment} {v : Traced π}
    (planned : image.Planned mapped segments)
    (hm : mapAllFresh space user (fun _ _ => false) (freshPages [] segments) [] t = (.ok (), v)) :
    ∃ entries, image.Mapped space user t v entries ∧
      entries.map Prod.fst = freshPages [] segments := by
  obtain ⟨entries, grown, all⟩ := mapAllFresh_ok (.refl space user t) hm
  have hpages : entries.map Prod.fst = freshPages [] segments := all fun _ _ => rfl
  refine ⟨entries, ⟨planned.fits, grown, fun page => ?_⟩, hpages⟩
  rw [hpages]
  exact planned.mem_freshPages

/-- A load that succeeds has mapped its pages and then filled its segments. -/
theorem load_ok {info : LoadedImage} (h : image.load space user t = (.ok info, u)) :
    ∃ v entries, image.Mapped space user t v entries ∧
      info.segments = image.memoryHeaders.length ∧ info.pagesMapped = entries.length ∧
      u = (image.memoryHeaders.map ProgramHeader.segment).foldl
        (fun p s => image.fillSegment s p) v := by
  obtain ⟨segments, v, planned, hm, count, pages, hu⟩ := load_stages h
  obtain ⟨entries, mapped, hpages⟩ := planned.mapped hm
  refine ⟨v, entries, mapped, ?_, ?_, ?_⟩
  · rw [count, planned.segments_eq, List.length_map]
  · rw [pages, ← hpages, List.length_map]
  · rw [hu, planned.segments_eq]

/-- Filling segments calls for no frame and no page, wherever they lie. -/
theorem fills_fillSegments (image : ExecutableImage) (segments : List Segment) (t : Traced π) :
    ∃ made, Fills t (segments.foldl (fun p s => image.fillSegment s p) t) made := by
  induction segments generalizing t with
  | nil => exact ⟨[], .refl t⟩
  | cons s segments ih =>
    have zeroed := fills_zeroRange s.start s.size t
    obtain ⟨first, hfirst⟩ : ∃ made, Fills t (image.fillSegment s t) made := by
      rw [fillSegment]
      split
      · exact ⟨_, zeroed.trans (fills_note _ _)⟩
      · exact ⟨_, (zeroed.trans (fills_copyIn s.start (image.contents s) _)).trans (fills_note _ _)⟩
    obtain ⟨made, hmade⟩ := ih (image.fillSegment s t)
    exact ⟨_, hfirst.trans hmade⟩

/-- A load that fails is undone. If it called for anything at all, nothing was wrong with the image
and none of its pages was mapped. -/
theorem load_undone (h : image.load space user t = (.error e, u)) :
    ∃ made, Undone t u made ∧ (made = [] ∨ ((e = .outOfMemory ∨ ∃ c, e = .mapFailed c) ∧
      ∀ page, image.Touches page → isMapped t space page = false)) := by
  rcases load_error_stages h with rfl | ⟨segments, cause, planned, rfl, hm⟩
  · exact ⟨[], .refl _, .inl rfl⟩
  · obtain ⟨made, undone⟩ := mapAllFresh_error (.refl space user t) rfl hm
    refine ⟨made, undone, .inr ⟨?_, planned.clear⟩⟩
    cases cause with
    | none => exact .inl rfl
    | some c => exact .inr ⟨c, rfl⟩

/-- Whenever a load fails, all mappings are as before, nothing was stored, and exactly the frames
that were taken are given back. Nothing at all was called for if the image itself is at fault or a
page that it touches was mapped already. -/
theorem load_error_takes_nothing (h : image.load space user t = (.error e, u)) :
    ∃ made, Undone t u made ∧
      (e ≠ .outOfMemory → (∀ c, e ≠ .mapFailed c) → made = []) ∧
      (∀ page, image.Touches page → isMapped t space page = true → made = []) := by
  obtain ⟨made, undone, early | ⟨cause, clear⟩⟩ := load_undone h
  · exact ⟨made, undone, fun _ _ => early, fun _ _ _ => early⟩
  · refine ⟨made, undone, fun memory mapping => ?_, fun page touched mapped => ?_⟩
    · rcases cause with cause | ⟨c, cause⟩
      · exact absurd cause memory
      · exact absurd cause (mapping c)
    · rw [clear page touched] at mapped
      cases mapped

/-- Takes two pages, of which it fills the end of the first and the start of the second. -/
def straddling : ExecutableImage :=
  written 0x400000 [⟨loadable, 120, 0x400ffe, 4, 8⟩] [1, 2, 3, 4]

/-- A machine with used frames that cannot map the second page. -/
def jammed : Traced (Faulty FlatMachine) where
  machine := ⟨{ dirty := true }, fun n => if n = 3 then some .parentEntryHugePage else none, 0⟩

theorem load_error_takes_nothing_jammed :
    (straddling.load ⟨0x1000⟩ true jammed).1 = .error (.mapFailed .parentEntryHugePage) ∧
      ∃ made, Undone jammed (straddling.load ⟨0x1000⟩ true jammed).2 made ∧
        taken made = [⟨0x1000⟩, ⟨0x1001⟩] ∧ givenBack made = [⟨0x1001⟩, ⟨0x1000⟩] := by
  have failed : (straddling.load ⟨0x1000⟩ true jammed).1 =
      .error (.mapFailed .parentEntryHugePage) := by decide +kernel
  have load : straddling.load ⟨0x1000⟩ true jammed = (.error (.mapFailed .parentEntryHugePage),
      (straddling.load ⟨0x1000⟩ true jammed).2) := by rw [← failed]
  obtain ⟨made, undone, -, -⟩ := load_error_takes_nothing load
  have none : jammed.calls = [] := rfl
  have all := undone.calls
  rw [none, List.nil_append] at all
  refine ⟨failed, made, undone, ?_, ?_⟩ <;> rw [← all] <;> decide +kernel

end ExecutableImage
end KernelCore
