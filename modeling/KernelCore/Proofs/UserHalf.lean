import KernelCore.Kernel
import KernelCore.Proofs.FailedCreations
import KernelCore.Proofs.ImageFootprint

/-!
# Pages for ring 3

Whatever the machine answers, the kernel asks it to map a page for ring 3 only if the page lies
below the end of the user half, and it does so exactly for processes of ring 3. Stacks lie there
by their slots; of an image for ring 3 every segment is checked with its last byte, and with it all
pages that the segment touches.
-/
namespace KernelCore

/-- The page lies wholly in the lower half. -/
def Page.BelowEnd (page : Page) : Prop := page.start + pageSize ≤ userSpaceEnd

/-- What may be asked for on behalf of a process of ring 3, of one of ring 0 or of none: the page is
to be for the ring of the process, and one for ring 3 lies in the lower half. -/
def Permits (userland? : Option Bool) (asked : AddressSpace × Page × Bool) : Prop :=
  userland? = some asked.2.2 ∧ (asked.2.2 = true → asked.2.1.BelowEnd)

/-- On the way from one state to the other, no page was asked for that is not allowed. -/
def AsksWithin {π : Type} (allowed : AddressSpace × Page × Bool → Prop) (t u : Traced π) : Prop :=
  ∃ made, u.calls = t.calls ++ made ∧ ∀ asked ∈ mappedPages made, allowed asked

section Asking

variable {π : Type} {allowed wider : AddressSpace × Page × Bool → Prop} {t u v : Traced π}

namespace AsksWithin

theorem refl : AsksWithin allowed t t := ⟨[], (List.append_nil _).symm, nofun⟩

theorem trans (h : AsksWithin allowed t u) (h' : AsksWithin allowed u v) :
    AsksWithin allowed t v := by
  obtain ⟨made, calls, all⟩ := h
  obtain ⟨more, calls', all'⟩ := h'
  refine ⟨made ++ more, by rw [calls', calls, List.append_assoc], fun asked ha => ?_⟩
  rw [mappedPages_append, List.mem_append] at ha
  exact ha.elim (all asked) (all' asked)

theorem record (t : Traced π) {calls : List Call} (none : mappedPages calls = []) (machine : π) :
    AsksWithin allowed t (t.record calls machine) :=
  ⟨calls, t.calls_record calls machine, by simp [none]⟩

theorem of_callsBetween (h : AsksWithin allowed t u) :
    u.calls = t.calls ++ callsBetween t u ∧
      ∀ asked ∈ mappedPages (callsBetween t u), allowed asked := by
  obtain ⟨made, calls, all⟩ := h
  rw [callsBetween_eq calls]
  exact ⟨calls, all⟩

end AsksWithin

variable [Platform π] {space : AddressSpace} {page : Page} {user : Bool}

theorem asks_note (n : Notice) (t : Traced π) : AsksWithin allowed t (note n t) := .record t rfl _

theorem asks_activate (s : AddressSpace) (t : Traced π) : AsksWithin allowed t (activate s t) :=
  .record t rfl _

omit [Platform π] in
theorem asks_transfer {c : Call} (none : c.mapped? = none) (t : Traced π) (stop : Option Nat)
    (machine : π) : AsksWithin allowed t (t.record (Traced.transfer c stop) machine) := by
  refine .record t ?_ machine
  cases stop with
  | none => simp [Traced.transfer, mappedPages, none]
  | some a => exact List.filterMap_cons_none none

theorem asks_noteDropped {dropped : Option Frame × Traced π} :
    AsksWithin allowed dropped.2 (noteDropped dropped) := by
  obtain ⟨_ | f, u⟩ := dropped
  · exact .refl
  · exact asks_note _ u

theorem asks_giveBack (f : Frame) (t : Traced π) : AsksWithin allowed t (giveBack f t) := by
  have released : AsksWithin allowed t (releaseFrame f t).2 := .record t rfl _
  exact released.trans asks_noteDropped

theorem asks_giveBackSpace (s : AddressSpace) (t : Traced π) :
    AsksWithin allowed t (giveBackSpace s t) := by
  have released : AsksWithin allowed t (releaseSpace s t).2 := .record t rfl _
  exact released.trans asks_noteDropped

theorem asks_createSpace {answer : Except MapError AddressSpace} (h : createSpace t = (answer, u)) :
    AsksWithin allowed t u := by
  obtain ⟨rfl, rfl⟩ := Prod.mk.inj h
  exact .record t rfl _

theorem asks_unmapAndFree (space : AddressSpace) (pages : List Page) (t : Traced π) :
    AsksWithin allowed t (unmapAndFree space pages t) := by
  induction pages generalizing t with
  | nil => exact .refl
  | cons page pages ih =>
    have first : AsksWithin allowed t (unmapPage space page t).2 := .record t rfl _
    rw [unmapAndFree]
    rcases hu : unmapPage space page t with ⟨_ | f, u⟩ <;> rw [hu] at first
    · exact first.trans (ih u)
    · exact first.trans ((asks_giveBack f u).trans (ih _))

/-- Also a page that cannot be mapped was asked for. -/
theorem asks_mapFresh (ok : allowed (space, page, user)) (t : Traced π) :
    AsksWithin allowed t (mapFresh space page user t).2 := by
  have first : AsksWithin allowed t (allocateFrame t).2 := .record t rfl _
  rw [mapFresh]
  rcases ha : allocateFrame t with ⟨_ | f, u⟩ <;> rw [ha] at first
  · exact first
  · have second : AsksWithin allowed u (mapPage space page f user u).2 :=
      ⟨[.mapPage space page f user], u.calls_record _ _, by simpa [mappedPages, Call.mapped?]⟩
    rcases hm : mapPage space page f user u with ⟨e | _, v⟩ <;> rw [hm] at second
    · simp only [hm]
      exact first.trans (second.trans (asks_giveBack f v))
    · simp only [hm]
      exact first.trans second

theorem asks_mapAllFresh {keep : Traced π → Page → Bool} {pages : List Page}
    (ok : ∀ page ∈ pages, allowed (space, page, user)) (mapped : List Page) (t : Traced π) :
    AsksWithin allowed t (mapAllFresh space user keep pages mapped t).2 := by
  induction pages generalizing mapped t with
  | nil => exact .refl
  | cons page pages ih =>
    obtain ⟨here, rest⟩ := List.forall_mem_cons.mp ok
    have first := asks_mapFresh here t
    rw [mapAllFresh]
    split
    · exact ih rest mapped t
    · rcases hm : mapFresh space page user t with ⟨e | _, u⟩ <;> rw [hm] at first
      · exact first.trans (asks_unmapAndFree space mapped.reverse u)
      · exact first.trans (ih rest _ u)

theorem asks_fillSegment (image : ExecutableImage) (s : Segment) (t : Traced π) :
    AsksWithin allowed t (image.fillSegment s t) := by
  have cleared : AsksWithin allowed t (zeroRange s.start s.size t).2 := asks_transfer rfl t _ _
  rw [ExecutableImage.fillSegment]
  refine .trans ?_ (asks_note _ _)
  split
  · exact cleared
  · exact cleared.trans (asks_transfer rfl _ _ _)

theorem asks_fillSegments (image : ExecutableImage) (segments : List Segment) (t : Traced π) :
    AsksWithin allowed t (segments.foldl (fun p s => image.fillSegment s p) t) := by
  induction segments generalizing t with
  | nil => exact .refl
  | cons s segments ih => exact (asks_fillSegment image s t).trans (ih _)

end Asking

namespace Segment

/-- The last byte of the segment lies in the lower half. -/
def BelowEnd (s : Segment) : Prop := s.start + (s.size - 1) < userSpaceEnd

/-- The end of the lower half is the end of a page, so a segment takes whole pages of it. -/
theorem BelowEnd.page {s : Segment} (h : s.BelowEnd) {page : Page} (spans : s.spans page = true) :
    page.BelowEnd := by
  simp only [Segment.spans, Bool.and_eq_true, decide_eq_true_eq] at spans
  unfold BelowEnd userSpaceEnd at h
  unfold Page.BelowEnd Page.start userSpaceEnd
  unfold lastPage pageSize at spans
  unfold pageSize
  omega

end Segment

theorem UserStack.belowEnd_of_mem_pages {slot : Nat} {page : Page} (h : page ∈ pages slot) :
    page.BelowEnd := by
  obtain ⟨n, hn, rfl⟩ := List.mem_map.mp h
  rw [List.mem_range'_1] at hn
  simp only [top, regionTop, stride, KernelStack.defaultSize, pageSize] at hn
  simp only [Page.BelowEnd, Page.start, userSpaceEnd, pageSize]
  omega

namespace ExecutableImage

variable {image : ExecutableImage} {user : Bool} {mapped : Page → Bool}

theorem segment?_user {h : ProgramHeader} {s : Segment}
    (hs : image.segment? true h = .ok (some s)) : s.BelowEnd := by
  rw [segment?] at hs
  split at hs
  · cases hs
  · split at hs
    · cases hs
    · split at hs
      · cases hs
      · split at hs
        · cases hs
        · split at hs
          · cases hs
          · rename_i inside
            cases hs
            simpa [Segment.BelowEnd] using inside

theorem planSegments_user {headers : List ProgramHeader} {earlier segments : List Segment}
    (h : image.planSegments true mapped headers earlier = .ok segments)
    (below : ∀ s ∈ earlier, s.BelowEnd) : ∀ s ∈ segments, s.BelowEnd := by
  induction headers generalizing earlier with
  | nil =>
    cases h
    exact below
  | cons header headers ih =>
    rw [planSegments] at h
    split at h
    · cases h
    · exact ih h below
    · rename_i s hs
      split at h
      · cases h
      · cases h
      · refine ih h fun s' hs' => ?_
        obtain before | here := List.mem_append.mp hs'
        · exact below s' before
        · exact List.mem_singleton.mp here ▸ segment?_user hs

/-- A plan keeps the entry point of the image, and for ring 3 all of it lies in the lower half. -/
theorem plan_user {entry : Nat} {segments : List Segment}
    (h : image.plan user mapped = .ok (entry, segments)) : image.entryPoint = .ok entry ∧
      (user = true → entry < userSpaceEnd ∧ ∀ page ∈ freshPages [] segments, page.BelowEnd) := by
  unfold plan at h
  split at h
  · cases h
  · rename_i header hheader
    split at h
    · cases h
    · rename_i canonical
      split at h
      · cases h
      · rename_i inside
        split at h
        · rename_i planned hplan
          cases h
          unfold entryPoint
          rw [hheader]
          refine ⟨if_pos (Classical.not_not.mp canonical), ?_⟩
          rintro rfl
          refine ⟨by simpa using inside, fun page hp => ?_⟩
          obtain ⟨-, spanned⟩ := mem_freshPages.mp hp
          obtain ⟨s, hs, spans⟩ := List.any_eq_true.mp spanned
          exact (planSegments_user hplan nofun s hs).page spans
        · cases h
        · cases h

variable {π : Type} [Platform π]

theorem asks_load {space : AddressSpace} {t u : Traced π} {answer : Outcome ImageError LoadedImage}
    (h : image.load space user t = (answer, u)) : AsksWithin (Permits (some user)) t u ∧
      ∀ info, answer = .ok info →
        image.entryPoint = .ok info.entry ∧ (user = true → info.entry < userSpaceEnd) := by
  unfold load at h
  split at h
  · obtain ⟨rfl, rfl⟩ := Prod.mk.inj h
    exact ⟨.refl, nofun⟩
  · obtain ⟨rfl, rfl⟩ := Prod.mk.inj h
    exact ⟨.refl, nofun⟩
  · rename_i entry segments hplan
    obtain ⟨same, below⟩ := plan_user hplan
    have mapping : AsksWithin (Permits (some user)) t
        (mapAllFresh space user (fun _ _ => false) (freshPages [] segments) [] t).2 :=
      asks_mapAllFresh (fun page hp => ⟨rfl, fun ring => (below ring).2 page hp⟩) [] t
    dsimp only at h
    split at h <;> rename_i hm <;> rw [hm] at mapping <;> obtain ⟨rfl, rfl⟩ := Prod.mk.inj h
    · exact ⟨mapping, nofun⟩
    · refine ⟨mapping.trans (asks_fillSegments image segments _), fun info loaded => ?_⟩
      obtain rfl := Outcome.ok.inj loaded
      exact ⟨same, fun ring => (below ring).1⟩

end ExecutableImage

namespace ProcessTable

variable {π : Type} [Platform π] {t u : ProcessTable} {p q : Traced π} {space : AddressSpace}
  {image : ExecutableImage} {userland : Bool}

theorem asks_mapStack (userland : Bool) (space : AddressSpace) (slot : Fin maxProcesses)
    (p : Traced π) :
    AsksWithin (Permits (some userland)) p (mapStack userland space slot p).2 := by
  rw [mapStack]
  split
  · rename_i ring
    have mapping : AsksWithin (Permits (some userland)) p (mapAllFresh space true
        (fun p page => isMapped p space page) (UserStack.pages slot) [] p).2 :=
      asks_mapAllFresh (fun page hp =>
        ⟨congrArg some ring, fun _ => UserStack.belowEnd_of_mem_pages hp⟩) [] p
    rw [UserStack.map]
    rcases hm : mapAllFresh space true (fun p page => isMapped p space page)
      (UserStack.pages slot) [] p with ⟨e | _, q⟩ <;> rw [hm] at mapping <;> exact mapping
  · exact .refl

theorem asks_create {name : String} {entry : Nat} {answer : Except ProcessError ProcessHandle}
    (h : t.create name entry userland p = (answer, u, q)) :
    AsksWithin (Permits (some userland)) p q := by
  cases answer with
  | ok handle =>
    obtain ⟨slot, space, region, top, stacked, n, -, -, created, stack, -, -, rfl⟩ := create_ok h
    have first : AsksWithin (Permits (some userland)) p (createSpace p).2 :=
      asks_createSpace (Prod.ext created rfl)
    have second := asks_mapStack userland space slot (createSpace p).2
    rw [stack] at second
    exact first.trans (second.trans (asks_note n stacked))
  | error e =>
    obtain rfl | ⟨-, ⟨cause, created⟩ | ⟨slot, space, r, cause, s, created, stack, rfl⟩⟩ :=
      create_error_stages h
    · exact .refl
    · exact asks_createSpace created
    · have second := asks_mapStack userland space slot r
      rw [stack] at second
      exact (asks_createSpace created).trans (second.trans (asks_giveBackSpace space s))

/-- The handle of a process that has been added leads to a process of the ring that was asked for. -/
theorem userland_of_create {name : String} {entry : Nat} {h : ProcessHandle}
    (hc : t.create name entry userland p = (.ok h, u, q)) :
    (u.get h).toOption.map Process.userland = some userland := by
  obtain ⟨slot, space, region, top, stacked, n, -, -, -, -, rfl, rfl, -⟩ := create_ok hc
  rw [get_eq_ok.mpr ⟨by rw [slots_added, if_pos rfl], rfl⟩]
  rfl

theorem asks_enter (space : AddressSpace) (p : Traced π) {allowed} :
    AsksWithin allowed p (enter space p) := by
  rw [enter]
  split
  · exact .refl
  · exact asks_activate space p

theorem asks_loadInto {answer : Outcome ImageError LoadedImage}
    (h : loadInto image space userland p = (answer, q)) :
    AsksWithin (Permits (some userland)) p q ∧ ∀ info, answer = .ok info →
      image.entryPoint = .ok info.entry ∧ (userland = true → info.entry < userSpaceEnd) := by
  have back (r : Traced π) : AsksWithin (Permits (some userland)) r
      (if activeSpace p = space then r else activate (activeSpace p) r) := by
    split
    · exact .refl
    · exact asks_activate _ r
  rw [loadInto] at h
  rcases hl : image.load space userland (enter space p) with ⟨info | e | _, r⟩ <;> rw [hl] at h <;>
    obtain ⟨rfl, rfl⟩ := Prod.mk.inj h <;> obtain ⟨loading, entry⟩ := ExecutableImage.asks_load hl
  · exact ⟨(asks_enter space p).trans (loading.trans (back r)), entry⟩
  · exact ⟨(asks_enter space p).trans (loading.trans (back r)), entry⟩
  · exact ⟨(asks_enter space p).trans loading, entry⟩

/-- Loading an image maps pages for the process that has the handle, if there is one. -/
theorem asks_loadAndRun {h : ProcessHandle} {answer : Outcome ProcessError LoadedImage}
    (hl : t.loadAndRun h image p = (answer, u, q)) :
    AsksWithin (Permits ((t.get h).toOption.map Process.userland)) p q ∧
      ∀ info, answer = .ok info → image.entryPoint = .ok info.entry ∧
        ((t.get h).toOption.map Process.userland = some true → info.entry < userSpaceEnd) := by
  unfold loadAndRun at hl
  split at hl
  · cases hl
    exact ⟨.refl, nofun⟩
  · rename_i r live
    rw [live]
    split at hl
    · cases hl
      exact ⟨.refl, nofun⟩
    · rcases load : loadInto image r.space r.userland p with ⟨info | e | _, v⟩ <;>
        rw [load] at hl <;> obtain ⟨loading, entry⟩ := asks_loadInto load
      · dsimp only at hl
        split at hl <;> cases hl
        · exact ⟨loading, nofun⟩
        · refine ⟨loading.trans (asks_note _ _), fun info' loaded => ?_⟩
          obtain rfl := Outcome.ok.inj loaded
          obtain ⟨same, below⟩ := entry info rfl
          exact ⟨same, fun ring => below (Option.some.inj ring)⟩
      · cases hl
        exact ⟨loading.trans (asks_note _ _), nofun⟩
      · cases hl
        exact ⟨loading, nofun⟩

end ProcessTable

/-- What makes the kernel map pages. -/
inductive ProcessRequest where
  | create (name : String) (entry : Nat) (userland : Bool)
  | load (h : ProcessHandle) (image : ExecutableImage)
  | spawn (name : String) (image : ExecutableImage)

inductive ProcessAnswer where
  | created (result : Except ProcessError ProcessHandle)
  | loaded (result : Outcome ProcessError LoadedImage)
  | spawned (result : Outcome ProcessError ProcessHandle)

/-- A request with what came of it. -/
structure ServedRequest where
  request : ProcessRequest
  /-- Whether the process that the request is about is one of ring 3, if there is such a process. -/
  userland? : Option Bool
  answer : ProcessAnswer
  /-- The calls that were made to the machine. -/
  calls : List Call

/-- The entry point of the image that was loaded. -/
def ServedRequest.entry? (s : ServedRequest) : Option Nat :=
  match s.request, s.answer with
  | .load .., .loaded (.ok info) => some info.entry
  | .spawn _ image, .spawned (.ok _) => image.entryPoint.toOption
  | _, _ => none

namespace Kernel

variable {π δ : Type} [Platform π]

def userlandOf (k : Kernel π δ) : ProcessRequest → Option Bool
  | .create _ _ userland => some userland
  | .load h _ => (k.processes.get h).toOption.map Process.userland
  | .spawn .. => some true

def answer (k : Kernel π δ) : ProcessRequest → ProcessAnswer × Kernel π δ
  | .create name entry userland =>
    let (result, k) := k.createProcess name entry userland
    (.created result, k)
  | .load h image =>
    let (result, k) := k.loadProcess h image
    (.loaded result, k)
  | .spawn name image =>
    let (result, k) := k.spawnImage name image
    (.spawned result, k)

/-- Answers requests one after the other. -/
def answerAll : List ProcessRequest → Kernel (Traced π) δ → List ServedRequest × Kernel (Traced π) δ
  | [], k => ([], k)
  | request :: requests, k =>
    let (answer, next) := k.answer request
    let (served, final) := answerAll requests next
    (⟨request, k.userlandOf request, answer, callsBetween k.platform next.platform⟩ :: served, final)

variable {k k' : Kernel (Traced π) δ}

theorem asks_spawnImage {name : String} {image : ExecutableImage}
    {answer : Outcome ProcessError ProcessHandle} (h : k.spawnImage name image = (answer, k')) :
    AsksWithin (Permits (some true)) k.platform k'.platform ∧ ∀ handle, answer = .ok handle →
      ∃ entry, image.entryPoint = .ok entry ∧ entry < userSpaceEnd := by
  rw [spawnImage] at h
  split at h
  · cases h
    exact ⟨.refl, nofun⟩
  · rename_i entry _
    rcases created : k.processes.create name entry true k.platform with ⟨e | handle, t, p⟩
    · have first := ProcessTable.asks_create created
      simp only [createProcess, created] at h
      cases h
      exact ⟨first, nofun⟩
    · have first := ProcessTable.asks_create created
      simp only [createProcess, created, loadProcess] at h
      -- The process that has just been added is the one that the image is loaded for.
      have newcomer := ProcessTable.userland_of_create created
      rcases loaded : t.loadAndRun handle image p with ⟨info | e | _, u, q⟩ <;>
        rw [loaded] at h <;> cases h <;>
        obtain ⟨second, below⟩ := ProcessTable.asks_loadAndRun loaded <;> rw [newcomer] at second
      · refine ⟨first.trans second, fun _ _ => ?_⟩
        obtain ⟨same, inside⟩ := below info rfl
        exact ⟨info.entry, same, inside newcomer⟩
      · exact ⟨first.trans second, nofun⟩
      · exact ⟨first.trans second, nofun⟩

theorem asks_answer {request : ProcessRequest} {answer : ProcessAnswer}
    (h : k.answer request = (answer, k')) :
    AsksWithin (Permits (k.userlandOf request)) k.platform k'.platform ∧
      ∀ userland? calls entry,
        ServedRequest.entry? ⟨request, userland?, answer, calls⟩ = some entry →
          k.userlandOf request = some true → entry < userSpaceEnd := by
  cases request with
  | create name entry userland =>
    rcases created : k.processes.create name entry userland k.platform with ⟨result, t, p⟩
    obtain ⟨rfl, rfl⟩ : .created result = answer ∧ { k with processes := t, platform := p } = k' := by
      simpa [Kernel.answer, createProcess, created] using h
    exact ⟨ProcessTable.asks_create created, fun _ _ _ none => by cases none⟩
  | load handle image =>
    rcases loaded : k.processes.loadAndRun handle image k.platform with ⟨result, t, p⟩
    obtain ⟨rfl, rfl⟩ : .loaded result = answer ∧ { k with processes := t, platform := p } = k' := by
      simpa [Kernel.answer, loadProcess, loaded] using h
    obtain ⟨asks, below⟩ := ProcessTable.asks_loadAndRun loaded
    refine ⟨asks, fun userland? calls entry reported => ?_⟩
    rcases result with info | e | _
    · obtain rfl := Option.some.inj reported
      exact (below info rfl).2
    · cases reported
    · cases reported
  | spawn name image =>
    rcases spawned : k.spawnImage name image with ⟨result, next⟩
    obtain ⟨rfl, rfl⟩ : .spawned result = answer ∧ next = k' := by
      simpa [Kernel.answer, spawned] using h
    obtain ⟨asks, below⟩ := asks_spawnImage spawned
    refine ⟨asks, fun userland? calls entry reported _ => ?_⟩
    rcases result with handle | e | _
    · obtain ⟨start, same, inside⟩ := below handle rfl
      simp only [ServedRequest.entry?, same] at reported
      obtain rfl := Option.some.inj reported
      exact inside
    · cases reported
    · cases reported

/-- Whatever is asked of the kernel and whatever the machine answers, a page that the kernel asks to
map is for the ring of the process concerned, and one for ring 3 lies below the end of the user half.
So does the entry point of an image that was loaded for ring 3. -/
theorem user_pages_below_end (requests : List ProcessRequest) (k : Kernel (Traced π) δ) :
    (answerAll requests k).1.map ServedRequest.request = requests ∧
    (answerAll requests k).2.platform.calls =
      k.platform.calls ++ (answerAll requests k).1.flatMap ServedRequest.calls ∧
    ∀ served ∈ (answerAll requests k).1,
      (∀ space page user, (space, page, user) ∈ mappedPages served.calls →
        served.userland? = some user ∧ (user = true → page.start + pageSize ≤ userSpaceEnd)) ∧
      (served.userland? = some true → ∀ entry, served.entry? = some entry → entry < userSpaceEnd) := by
  induction requests generalizing k with
  | nil => exact ⟨rfl, (List.append_nil _).symm, nofun⟩
  | cons request requests ih =>
    rcases step : k.answer request with ⟨answer, next⟩
    obtain ⟨asks, below⟩ := asks_answer step
    obtain ⟨calls, permitted⟩ := asks.of_callsBetween
    obtain ⟨all, later, rest⟩ := ih next
    simp only [answerAll, step]
    refine ⟨congrArg (request :: ·) all, ?_, List.forall_mem_cons.mpr ⟨⟨?_, ?_⟩, rest⟩⟩
    · rw [later, calls, List.flatMap_cons, List.append_assoc]
    · exact fun space page user asked => permitted _ asked
    · exact fun ring entry reported => below _ _ entry reported ring

/-- A program with two pages is started: two pages of its stack are mapped, then those of its image. -/
example : (answerAll
    [.spawn "init" (.written 0x400000 [⟨ExecutableImage.loadable, 120, 0x400ffe, 4, 8⟩] [1, 2, 3, 4])]
    (.new (⟨{}, []⟩ : Traced FlatMachine) ())).1.map
      (fun served => (served.userland?, served.entry?, mappedPages served.calls)) =
    [(some true, some 0x400000, [(⟨0x1000⟩, ⟨0x7fffefffb⟩, true), (⟨0x1000⟩, ⟨0x7fffefffc⟩, true),
      (⟨0x1000⟩, ⟨0x400⟩, true), (⟨0x1000⟩, ⟨0x401⟩, true)])] := by
  decide +kernel

end Kernel
end KernelCore
