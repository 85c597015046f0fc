import KernelCore.Kernel
import KernelCore.Proofs.FrameLeftovers
import KernelCore.Proofs.LoadedMemory
import KernelCore.Proofs.TableEffects

/-!
# The memory of a spawned process

What a program of ring 3 finds in the pages that were mapped for it. Where its image takes memory,
it finds what the image places there. Everywhere else in these pages, before and behind the segments
and all over its stack, it finds what the frames held when they were handed out.
-/
namespace KernelCore

section Stages

variable {π δ : Type} [Platform π]

namespace ProcessTable

/-- The stack of a process of ring 3 has been mapped, apart from pages that were there already. -/
theorem mapStack_stages {space : AddressSpace} {slot : Fin maxProcesses} {p q : π}
    {top : Option Nat} (h : mapStack true space slot p = (.ok top, q)) :
    mapAllFresh space true (fun p page => isMapped p space page) (UserStack.pages slot) [] p =
      (.ok (), q) := by
  rw [mapStack, if_pos rfl, UserStack.map] at h
  rcases hm : mapAllFresh space true (fun p page => isMapped p space page) (UserStack.pages slot)
    [] p with ⟨e | _, r⟩
  · rw [hm] at h
    cases h
  · rw [hm] at h
    cases h
    rfl

theorem activeSpace_enter [LawfulPlatform π] {space : AddressSpace} (issued : Issued π space)
    (p : π) : activeSpace (enter space p) = space := by
  rw [enter]
  split
  · assumption
  · exact LawfulPlatform.activeSpace_activate issued p

end ProcessTable

/-- A program has been spawned: its process was added, and its image was loaded for it. -/
theorem Kernel.spawnImage_stages {k k' : Kernel π δ} {name : String} {image : ExecutableImage}
    {h : ProcessHandle} (spawned : k.spawnImage name image = (.ok h, k')) :
    ∃ c stacked info loaded first last, k'.processes.get h = .ok c ∧
      (createSpace k.platform).1 = .ok c.space ∧
      mapAllFresh c.space true (fun p page => isMapped p c.space page) (UserStack.pages h.slot) []
        (createSpace k.platform).2 = (.ok (), stacked) ∧
      ProcessTable.loadInto image c.space true (note first stacked) = (.ok info, loaded) ∧
      k'.platform = note last loaded := by
  rw [spawnImage] at spawned
  split at spawned
  · cases spawned
  · rename_i entry _
    rcases hc : k.processes.create name entry true k.platform with ⟨e | h', t, p⟩
    · simp [createProcess, hc] at spawned
    · simp only [createProcess, hc, loadProcess] at spawned
      rcases hl : t.loadAndRun h' image p with ⟨info | e | _, u, q⟩
      · rw [hl] at spawned
        cases spawned
        obtain ⟨slot, space, region, top, stacked, first, -, -, created, stack, rfl, rfl, rfl⟩ :=
          ProcessTable.create_ok hc
        obtain ⟨c, start, loaded, last, live, -, load, rfl, rfl⟩ := ProcessTable.loadAndRun_ok hl
        have newcomer : c.space = space ∧ c.userland = true := by
          have added := (ProcessTable.get_eq_ok.mp live).1
          rw [ProcessTable.slots_added, if_pos rfl] at added
          cases added
          exact ⟨rfl, rfl⟩
        obtain ⟨rfl, user⟩ := newcomer
        rw [user] at load
        exact ⟨_, stacked, info, loaded, first, last, ProcessTable.get_readied live start, created,
          ProcessTable.mapStack_stages stack, load, rfl⟩
      · rw [hl] at spawned
        cases spawned
      · rw [hl] at spawned
        cases spawned

end Stages

variable {π : Type} [Platform π] [LawfulMemory π] {space : AddressSpace}
  {t u v : Traced (Inspected π)} {entries more : List (Page × Frame)}

/-- Since `t`, these pages have been mapped to these frames for ring 3, and nothing was stored. -/
structure Furnished (space : AddressSpace) (t u : Traced (Inspected π))
    (entries : List (Page × Frame)) : Prop where
  calls : ∃ made, HandsOut t u made ∧ taken made = entries.map Prod.snd ∧
    mappedPages made = entries.map fun e => (space, e.1, true)
  nodup : (entries.map Prod.fst).Nodup
  free : ∀ e ∈ entries, (mappedMemory t).backing space e.1 = none
  backed : ∀ e ∈ entries, (mappedMemory u).backing space e.1 = some ⟨e.2, true⟩
  kept : ∀ s page b, (mappedMemory t).backing s page = some b →
    (mappedMemory u).backing s page = some b

namespace Furnished

theorem refl (space : AddressSpace) (t : Traced (Inspected π)) : Furnished space t t [] where
  calls := ⟨[], .refl t, rfl, rfl⟩
  nodup := .nil
  free := nofun
  backed := nofun
  kept _ _ _ := id

theorem trans (h : Furnished space t u entries) (h' : Furnished space u v more) :
    Furnished space t v (entries ++ more) where
  calls := by
    obtain ⟨made, hands, frames, pages⟩ := h.calls
    obtain ⟨made', hands', frames', pages'⟩ := h'.calls
    refine ⟨_, hands.trans hands', ?_, ?_⟩
    · rw [taken_append, frames, frames', List.map_append]
    · rw [mappedPages_append, pages, pages', List.map_append]
  nodup := by
    rw [List.map_append]
    refine List.nodup_append.mpr ⟨h.nodup, h'.nodup, ?_⟩
    rintro page hp _ hp' rfl
    obtain ⟨e, he, rfl⟩ := List.mem_map.mp hp
    obtain ⟨e', he', same⟩ := List.mem_map.mp hp'
    have free := h'.free e' he'
    rw [same, h.backed e he] at free
    cases free
  free e he := by
    rcases List.mem_append.mp he with he | he
    · exact h.free e he
    · -- What is free later on was free before.
      rcases hb : (mappedMemory t).backing space e.1 with _ | b
      · rfl
      · rw [← h'.free e he, h.kept space e.1 b hb]
  backed e he := by
    rcases List.mem_append.mp he with he | he
    · exact h'.kept space e.1 _ (h.backed e he)
    · exact h'.backed e he
  kept s page b hb := h'.kept s page b (h.kept s page b hb)

theorem of_undone {made : List Call} (h : HandsOut t u made) (none : taken made = [])
    (pages : mappedPages made = []) (same : (mappedMemory u).backing = (mappedMemory t).backing) :
    Furnished space t u [] where
  calls := ⟨made, h, none, pages⟩
  nodup := .nil
  free := nofun
  backed := nofun
  kept _ _ _ hb := by rwa [same]

theorem of_grown {made : List Call} (h : Grown space true t u entries) (hands : HandsOut t u made) :
    Furnished space t u entries where
  calls := by
    have all := hands.calls
    rw [h.quiet.calls] at all
    rw [← List.append_cancel_left all] at hands
    exact ⟨_, hands, taken_freshCalls space true entries, mappedPages_freshCalls space true entries⟩
  nodup := h.nodup
  free := h.free
  backed := h.backed
  kept _ _ _ hb := h.kept hb

theorem note (space : AddressSpace) (n : Notice) (t : Traced (Inspected π)) :
    Furnished space t (KernelCore.note n t) [] :=
  .of_undone (handsOut_note n t) rfl rfl (undone_note n t).backing

theorem activate (space active : AddressSpace) (t : Traced (Inspected π)) :
    Furnished space t (KernelCore.activate active t) [] :=
  .of_undone (handsOut_activate active t) rfl rfl (undone_activate active t).backing

theorem pristine (h : Furnished space t u entries) {e : Page × Frame} (he : e ∈ entries) :
    Pristine u e.2 := by
  obtain ⟨made, hands, frames, -⟩ := h.calls
  refine hands.pristine e.2 ?_
  rw [frames]
  exact List.mem_map_of_mem he

end Furnished

/-- What the frame at an address of a space held there when it was handed out. -/
def leftoverByte (t : Traced (Inspected π)) (space : AddressSpace) (a : Nat) : Option UInt8 :=
  ((mappedMemory t).backing space (.containing a)).bind fun b =>
    (t.machine.leftover? b.frame).map fun bytes => bytes.byte (a % pageSize)

namespace Furnished

/-- In pages that were just mapped, every byte is left over. -/
theorem byte_eq_leftoverByte (h : Furnished space t u entries) {a : Nat}
    (ha : .containing a ∈ entries.map Prod.fst) :
    ∃ b, (mappedMemory u).byte space a = some b ∧ leftoverByte u space a = some b := by
  obtain ⟨e, he, page⟩ := List.mem_map.mp ha
  have backed := h.backed e he
  rw [page] at backed
  refine ⟨((mappedMemory u).contents e.2).byte (a % pageSize), ?_, ?_⟩
  · rw [MappedMemory.byte, backed, Option.map_some]
  · rw [leftoverByte, backed, Option.bind_some, h.pristine he, Option.map_some]

/-- Where nothing is mapped any more, the bytes stay. -/
theorem byte_eq (h : Furnished space t u []) {a : Nat} {b : Backing}
    (hb : (mappedMemory t).backing space (.containing a) = some b) :
    (mappedMemory u).byte space a = (mappedMemory t).byte space a ∧
      leftoverByte u space a = leftoverByte t space a := by
  obtain ⟨made, hands, frames, -⟩ := h.calls
  have out : b.frame ∉ taken made := by simp [frames]
  have later := h.kept space _ b hb
  constructor
  · rw [MappedMemory.byte, MappedMemory.byte, hb, later, Option.map_some, Option.map_some,
      hands.contents b.frame out]
  · rw [leftoverByte, leftoverByte, hb, later, Option.bind_some, Option.bind_some,
      hands.leftover b.frame out]

end Furnished

theorem isMapped_eq_false_iff {page : Page} :
    isMapped t space page = false ↔ (mappedMemory t).backing space page = none := by
  rw [LawfulMemory.isMapped_eq, Option.isSome_eq_false_iff, Option.isNone_iff_eq_none]

/-- Mapping a stack maps those of its pages that are not mapped yet. -/
theorem furnished_stack {slot : Nat}
    (h : mapAllFresh space true (fun p page => isMapped p space page) (UserStack.pages slot) [] t =
      (.ok (), u)) :
    ∃ entries, Furnished space t u entries ∧ ∀ page, page ∈ entries.map Prod.fst ↔
      page ∈ UserStack.pages slot ∧ isMapped t space page = false := by
  obtain ⟨made, hands⟩ := handsOut_mapAllFresh h
  obtain ⟨entries, grown, sub, all⟩ := mapAllFresh_ok_keeping (.refl space true t) h
  rw [List.nil_append] at grown all
  refine ⟨entries, .of_grown grown hands, fun page => ⟨fun hp => ⟨sub page hp, ?_⟩, ?_⟩⟩
  · obtain ⟨e, he, rfl⟩ := List.mem_map.mp hp
    exact isMapped_eq_false_iff.mpr (grown.free e he)
  · rintro ⟨hp, free⟩
    refine (all page hp).resolve_right fun there => ?_
    rw [free] at there
    cases there

theorem furnished_enter (t : Traced (Inspected π)) :
    Furnished space t (ProcessTable.enter space t) [] := by
  rw [ProcessTable.enter]
  split
  · exact .refl space t
  · exact .activate space space t

theorem furnished_leave (previous : AddressSpace) (t : Traced (Inspected π)) :
    Furnished space t (if previous = space then t else activate previous t) [] := by
  split
  · exact .refl space t
  · exact .activate space previous t

namespace ExecutableImage

variable {image : ExecutableImage}

/-- A segment of the image takes the address. -/
def Covers (image : ExecutableImage) (a : Nat) : Prop := ∃ h ∈ image.memoryHeaders, h.Covers a

instance (image : ExecutableImage) (a : Nat) : Decidable (image.Covers a) :=
  inferInstanceAs (Decidable (∃ h ∈ image.memoryHeaders,
    h.address ≤ a ∧ a < h.address + h.memorySize))

/-- The image places the byte at the address: the last segment that takes the address has it there,
from the image or as a zero behind the bytes of the image. -/
def Places (image : ExecutableImage) (a : Nat) (b : UInt8) : Prop :=
  ∃ before h after, image.memoryHeaders = before ++ h :: after ∧ h.Covers a ∧
    (∀ later ∈ after, ¬ later.Covers a) ∧
    if a - h.address < h.fileSize then image.bytes[h.offset + (a - h.address)]? = some b else b = 0

theorem Places.covers {a : Nat} {b : UInt8} (h : image.Places a b) : image.Covers a := by
  obtain ⟨before, header, after, split, covers, -⟩ := h
  exact ⟨header, split ▸ by simp, covers⟩

/-- Among the segments that take an address there is a last one. -/
theorem exists_last_covering {headers : List ProgramHeader} {a : Nat}
    (h : ∃ header ∈ headers, header.Covers a) :
    ∃ before header after, headers = before ++ header :: after ∧ header.Covers a ∧
      ∀ later ∈ after, ¬ later.Covers a := by
  induction headers with
  | nil =>
    obtain ⟨header, hm, -⟩ := h
    cases hm
  | cons first headers ih =>
    by_cases later : ∃ header ∈ headers, header.Covers a
    · obtain ⟨before, header, after, rfl, covers, last⟩ := ih later
      exact ⟨first :: before, header, after, rfl, covers, last⟩
    · obtain ⟨header, hm, covers⟩ := h
      rcases List.mem_cons.mp hm with rfl | hm
      · exact ⟨[], header, headers, rfl, covers, fun l hl hc => later ⟨l, hl, hc⟩⟩
      · exact absurd ⟨header, hm, covers⟩ later

theorem handedOut_fillSegments (image : ExecutableImage) (segments : List Segment)
    (t : Traced (Inspected π)) :
    (segments.foldl (fun p s => image.fillSegment s p) t).machine.handedOut =
      t.machine.handedOut := by
  induction segments generalizing t with
  | nil => rfl
  | cons s segments ih =>
    refine (ih (image.fillSegment s t)).trans ?_
    rw [fillSegment]
    split <;> rfl

/-- Since `t`, only bytes that the image takes have changed, and they are what it places there. -/
structure Placed (image : ExecutableImage) (space : AddressSpace) (pages : Page → Prop)
    (t u : Traced (Inspected π)) : Prop where
  fills : ∃ made, Fills t u made
  handedOut : u.machine.handedOut = t.machine.handedOut
  inside : ∀ a, image.Covers a → ∃ b, (mappedMemory u).byte space a = some b ∧ image.Places a b
  outside : ∀ a, pages (.containing a) → ¬ image.Covers a →
    (mappedMemory u).byte space a = (mappedMemory t).byte space a

/-- Filling the segments of an image, whose pages are the last ones that were mapped. -/
theorem Mapped.placed {w : Traced (Inspected π)} (mapped : image.Mapped space true t v more)
    (furnished : Furnished space w v (entries ++ more))
    (once : ((entries ++ more).map Prod.snd).Nodup)
    (steady : Steady (π := Traced (Inspected π)) activeSpace) (active : activeSpace v = space) :
    image.Placed space (· ∈ (entries ++ more).map Prod.fst) v
      ((image.memoryHeaders.map ProgramHeader.segment).foldl
        (fun p s => image.fillSegment s p) v) where
  fills := fills_fillSegments image _ v
  handedOut := handedOut_fillSegments image _ v
  inside a ha := by
    obtain ⟨before, header, after, split, covers, last⟩ := exists_last_covering ha
    rw [List.map_append] at once
    have filled := mapped.filled steady active once.of_append_right
    obtain ⟨b, hb, placed⟩ := filled.byte_of_last rfl mapped.fits split covers last
    rw [active] at hb
    exact ⟨b, hb, before, header, after, split, covers, last, placed⟩
  outside a ha out := by
    have sep : (mappedMemory v).Separate (activeSpace v) (· ∈ (entries ++ more).map Prod.fst) := by
      rw [active]
      exact MappedMemory.separate_of_backed furnished.backed once
    have touched : ∀ s ∈ image.memoryHeaders.map ProgramHeader.segment,
        ∀ page ∈ pagesTouched s.start s.size, page ∈ (entries ++ more).map Prod.fst := by
      intro s hs page hp
      rw [List.map_append]
      exact List.mem_append_right _ ((mapped.touched page).mpr (touches_of_mem hs hp))
    have uncovered : ∀ s ∈ image.memoryHeaders.map ProgramHeader.segment, ¬ s.Covers a := by
      intro s hs covers
      obtain ⟨header, hm, rfl⟩ := List.mem_map.mp hs
      exact out ⟨header, hm, covers⟩
    have same := byte_fillSegments_outside v steady (whole_of_fits mapped.fits) sep touched ha
      uncovered
    rwa [active] at same

end ExecutableImage

namespace ExecutableImage

/-- What is left over is not a matter of what is stored. -/
theorem Placed.leftoverByte_eq {image : ExecutableImage} {pages : Page → Prop}
    (h : image.Placed space pages t u) (a : Nat) :
    leftoverByte u space a = leftoverByte t space a := by
  obtain ⟨made, fills⟩ := h.fills
  rw [leftoverByte, leftoverByte, fills.backing]
  simp only [Inspected.leftover?, h.handedOut]

end ExecutableImage

/-- Loading the image of a process maps its pages, fills them, and maps nothing any more. -/
theorem ProcessTable.loadInto_furnished [LawfulPlatform π] {image : ExecutableImage}
    {info : LoadedImage} (issued : Issued (Traced (Inspected π)) space)
    (h : loadInto image space true t = (.ok info, u)) :
    ∃ v more, Furnished space t v more ∧ activeSpace v = space ∧
      image.Mapped space true (enter space t) v more ∧
      Furnished space ((image.memoryHeaders.map ProgramHeader.segment).foldl
        (fun p s => image.fillSegment s p) v) u [] := by
  obtain ⟨r, load, rfl⟩ := loadInto_stages h
  obtain ⟨segments, v, planned, hm, -, -, rfl⟩ := ExecutableImage.load_stages load
  obtain ⟨more, mapped, -⟩ := planned.mapped hm
  obtain ⟨made, hands⟩ := handsOut_mapAllFresh hm
  have active := LawfulPlatform.steady_activeSpace.mapping.view_mapAllFresh space true
    (fun _ _ => false) (ExecutableImage.freshPages [] segments) [] (enter space t)
  rw [hm] at active
  refine ⟨v, more, (furnished_enter t).trans (.of_grown mapped.grown hands),
    active.trans (activeSpace_enter issued t), mapped, ?_⟩
  rw [← planned.segments_eq]
  exact furnished_leave _ _

/-- These pages have been mapped for a process of ring 3 in the space, and this is what they hold. -/
structure Spawned (image : ExecutableImage) (slot : Nat) (space : AddressSpace)
    (t u : Traced (Inspected π)) (pages : List Page) : Prop where
  nodup : pages.Nodup
  mapped : mappedPages (callsBetween t u) = pages.map fun page => (space, page, true)
  mem_pages : ∀ page, page ∈ pages ↔ image.Touches page ∨
    (page ∈ UserStack.pages slot ∧ isMapped (createSpace t).2 space page = false)
  placed : ∀ a, .containing a ∈ pages → image.Covers a →
    ∃ b, (mappedMemory u).byte space a = some b ∧ image.Places a b
  leftover : ∀ a, .containing a ∈ pages → ¬ image.Covers a →
    ∃ b, (mappedMemory u).byte space a = some b ∧ leftoverByte u space a = some b

/-- The frames that were taken for a space, and the pages that were mapped there. -/
theorem calls_of_fills {w : Traced (Inspected π)} {filling : List Call}
    (furnished : Furnished space (createSpace t).2 v entries) (fills : Fills v w filling)
    (rest : Furnished space w u []) :
    taken (callsBetween t u) = entries.map Prod.snd ∧
      mappedPages (callsBetween t u) = entries.map fun e => (space, e.1, true) := by
  obtain ⟨made, hands, frames, pages⟩ := furnished.calls
  obtain ⟨last, leaving, noFrames, noPages⟩ := rest.calls
  have calls : u.calls = t.calls ++
      ([.createSpace (Traced.created (createSpace t).1)] ++ made ++ filling ++ last) := by
    have created : (createSpace t).2.calls =
        t.calls ++ [.createSpace (Traced.created (createSpace t).1)] := t.calls_record _ _
    rw [leaving.calls, fills.calls, hands.calls, created]
    simp only [List.append_assoc]
  rw [callsBetween_eq calls]
  constructor
  · rw [taken_append, taken_append, taken_append, frames, fills.taken_eq, noFrames]
    exact (List.append_nil _).trans (List.append_nil _)
  · rw [mappedPages_append, mappedPages_append, mappedPages_append, pages, fills.mappedPages_eq,
      noPages]
    exact (List.append_nil _).trans (List.append_nil _)

/-- The space was created, its pages were mapped, the image was placed in them, and then nothing was
mapped any more. -/
theorem spawned_of_placed {image : ExecutableImage} {slot : Nat} {w : Traced (Inspected π)}
    (furnished : Furnished space (createSpace t).2 v entries)
    (placed : image.Placed space (· ∈ entries.map Prod.fst) v w) (rest : Furnished space w u [])
    (pages : ∀ page, page ∈ entries.map Prod.fst ↔ image.Touches page ∨
      (page ∈ UserStack.pages slot ∧ isMapped (createSpace t).2 space page = false)) :
    Spawned image slot space t u (entries.map Prod.fst) := by
  obtain ⟨filling, fills⟩ := placed.fills
  have same {a : Nat} (ha : .containing a ∈ entries.map Prod.fst) :
      (mappedMemory u).byte space a = (mappedMemory w).byte space a ∧
        leftoverByte u space a = leftoverByte w space a := by
    obtain ⟨e, he, page⟩ := List.mem_map.mp ha
    have backed := furnished.backed e he
    rw [page, ← fills.backing] at backed
    exact rest.byte_eq backed
  refine ⟨furnished.nodup, ?_, pages, fun a ha covered => ?_, fun a ha out => ?_⟩
  · rw [(calls_of_fills furnished fills rest).2, List.map_map]
    rfl
  · rw [(same ha).1]
    exact placed.inside a covered
  · rw [(same ha).1, (same ha).2, placed.outside a ha out, placed.leftoverByte_eq a]
    exact furnished.byte_eq_leftoverByte ha

/-- No byte of the pages is left over. -/
def Clean (image : ExecutableImage) (space : AddressSpace) (u : Traced (Inspected π))
    (pages : List Page) : Prop :=
  ∀ a, .containing a ∈ pages →
    ∃ b, (mappedMemory u).byte space a = some b ∧ (image.Places a b ∨ b = 0)

theorem Spawned.clean_iff {image : ExecutableImage} {slot : Nat} {pages : List Page}
    (h : Spawned image slot space t u pages) :
    Clean image space u pages ↔
      ∀ a, .containing a ∈ pages → ¬ image.Covers a → leftoverByte u space a = some 0 := by
  constructor
  · intro clean a ha out
    obtain ⟨b, hb, left⟩ := h.leftover a ha out
    obtain ⟨b', hb', placed | rfl⟩ := clean a ha
    · exact absurd placed.covers out
    · rw [left, ← hb, hb']
  · intro zero a ha
    by_cases covered : image.Covers a
    · obtain ⟨b, hb, placed⟩ := h.placed a ha covered
      exact ⟨b, hb, .inl placed⟩
    · obtain ⟨b, hb, left⟩ := h.leftover a ha covered
      rw [zero a ha covered] at left
      exact ⟨b, hb, .inr (Option.some.inj left).symm⟩

/-- When a program has been spawned, every byte of the pages that were mapped for it is what its
image places there or, where no segment takes memory, what the frame held before. So nothing is left
over exactly if the frames held zeros there already. -/
theorem Kernel.spawn_clean_iff [LawfulPlatform π] {δ : Type} {k k' : Kernel (Traced (Inspected π)) δ}
    {name : String} {image : ExecutableImage} {h : ProcessHandle}
    (spawned : k.spawnImage name image = (.ok h, k'))
    (once : (taken (callsBetween k.platform k'.platform)).Nodup) :
    ∃ c pages, k'.processes.get h = .ok c ∧
      Spawned image h.slot c.space k.platform k'.platform pages ∧
      (Clean image c.space k'.platform pages ↔ ∀ a, .containing a ∈ pages → ¬ image.Covers a →
        leftoverByte k'.platform c.space a = some 0) := by
  obtain ⟨c, stacked, info, loaded, first, last, live, created, stack, load, hk⟩ :=
    spawnImage_stages spawned
  obtain ⟨entries, furnished, stackPages⟩ := furnished_stack stack
  obtain ⟨v, more, loading, active, mapped, left⟩ :=
    ProcessTable.loadInto_furnished ⟨_, .inr created⟩ load
  have whole : Furnished c.space (createSpace k.platform).2 v (entries ++ more) := by
    have noted := furnished.trans (.note c.space first stacked)
    rw [List.append_nil] at noted
    exact noted.trans loading
  have rest := left.trans (.note c.space last loaded)
  rw [← hk] at rest
  -- The frames of the stack and those of the image are the only ones taken, so no two of their pages
  -- share a frame, and filling the image does not show up anywhere else.
  obtain ⟨filling, fills⟩ := ExecutableImage.fills_fillSegments image
    (image.memoryHeaders.map ProgramHeader.segment) v
  rw [(calls_of_fills whole fills rest).1] at once
  have placed := mapped.placed whole once LawfulPlatform.steady_activeSpace active
  have all : Spawned image h.slot c.space k.platform k'.platform
      ((entries ++ more).map Prod.fst) := by
    refine spawned_of_placed whole placed rest fun page => ?_
    rw [List.map_append, List.mem_append, stackPages, mapped.touched, or_comm]
  exact ⟨c, _, live, all, all.clean_iff⟩

/-- A kernel of a machine that hands out used frames. -/
def usedFrames : Kernel (Traced (Inspected FlatMachine)) Unit :=
  .new ⟨⟨{ dirty := true }, []⟩, []⟩ ()

theorem Kernel.spawn_clean_iff_straddling :
    (usedFrames.spawnImage "init" .straddling).1 = .ok .first ∧
      (taken (callsBetween usedFrames.platform
        (usedFrames.spawnImage "init" .straddling).2.platform)).Nodup ∧
      ∃ c pages, (usedFrames.spawnImage "init" .straddling).2.processes.get .first = .ok c ∧
        Spawned .straddling 1 c.space usedFrames.platform
          (usedFrames.spawnImage "init" .straddling).2.platform pages ∧
        (Clean .straddling c.space (usedFrames.spawnImage "init" .straddling).2.platform pages ↔
          ∀ a, .containing a ∈ pages → ¬ ExecutableImage.straddling.Covers a →
            leftoverByte (usedFrames.spawnImage "init" .straddling).2.platform c.space a =
              some 0) := by
  have answer : (usedFrames.spawnImage "init" .straddling).1 = .ok .first := by decide +kernel
  have once : (taken (callsBetween usedFrames.platform
      (usedFrames.spawnImage "init" .straddling).2.platform)).Nodup := by decide +kernel
  have spawned : usedFrames.spawnImage "init" .straddling =
      (.ok .first, (usedFrames.spawnImage "init" .straddling).2) := by rw [← answer]
  exact ⟨answer, once, Kernel.spawn_clean_iff spawned once⟩

/-- Before and behind the bytes of a segment, and on the stack, a program finds what others left. -/
theorem Kernel.spawn_not_clean :
    (usedFrames.spawnImage "init" .straddling).1 = .ok .first ∧
      ∀ a ∈ [0x400000, 0x401ff8, UserStack.top 1 - 8],
        ((⟨0x1000⟩, .containing a, true) : AddressSpace × Page × Bool) ∈
            mappedPages (callsBetween usedFrames.platform
              (usedFrames.spawnImage "init" .straddling).2.platform) ∧
          ¬ ∃ b, (mappedMemory (usedFrames.spawnImage "init" .straddling).2.platform).byte
              ⟨0x1000⟩ a = some b ∧ (ExecutableImage.straddling.Places a b ∨ b = 0) := by
  refine ⟨by decide +kernel, fun a ha => ⟨?_, ?_⟩⟩
  · revert a
    decide +kernel
  · have out : ¬ ExecutableImage.straddling.Covers a := by
      revert a
      decide +kernel
    have dirty : (mappedMemory (usedFrames.spawnImage "init" .straddling).2.platform).byte
        ⟨0x1000⟩ a = some 0xcc := by
      clear out
      revert a
      decide +kernel
    rintro ⟨b, hb, placed | rfl⟩
    · exact out placed.covers
    · rw [dirty] at hb
      cases hb

end KernelCore
