import KernelCore.Proofs.FailedCreations
import KernelCore.Proofs.FailedLoads
import KernelCore.Proofs.ProcessOrigins
import KernelCore.Proofs.SpawnedMemory

/-!
# The stacks of ring 3

A process of ring 3 runs on the stack of its slot, in pages of its space. The pages that are missing
there when the process is added are mapped for ring 3; those that are there already are kept as they
are. No call takes a page away that was mapped before the call. So in all states of a run the stack is
there, and a page of it is closed to ring 3 exactly if it was so when the process was added. It is an
image for a process of ring 0 that closes such a page.
-/
namespace KernelCore

namespace MappedMemory

/-- In some space the page is mapped for ring 0 only. -/
def Closed (m : MappedMemory) (page : Page) : Prop :=
  ∃ space b, m.backing space page = some b ∧ b.user = false

/-- What was mapped stays mapped as it was, and only such pages are closed to ring 3 besides those
that were. -/
structure Extends (m m' : MappedMemory) (closing : Page → Prop) : Prop where
  kept : ∀ space page b, m.backing space page = some b → m'.backing space page = some b
  closed : ∀ page, m'.Closed page → m.Closed page ∨ closing page

namespace Extends

variable {m m' m'' : MappedMemory} {closing more : Page → Prop}

theorem of_backing (same : m'.backing = m.backing) : m.Extends m' closing where
  kept space page b hb := by rwa [same]
  closed page hp := by
    rw [Closed, same] at hp
    exact .inl hp

theorem mono (h : m.Extends m' closing) (weaker : ∀ page, closing page → more page) :
    m.Extends m' more where
  kept := h.kept
  closed page hp := (h.closed page hp).imp_right (weaker page)

theorem trans (h : m.Extends m' closing) (h' : m'.Extends m'' closing) :
    m.Extends m'' closing where
  kept space page b hb := h'.kept space page b (h.kept space page b hb)
  closed page hp := by
    rcases h'.closed page hp with hp | hp
    · exact h.closed page hp
    · exact .inr hp

end Extends

end MappedMemory

/-- A machine on which the calls that are not about pages take no page away. A space that is made has
no page for ring 0 only but those that other spaces have so. -/
class LastingPages (π : Type) [Platform π] [LawfulMemory π] : Prop where
  createSpace (p : π) : (mappedMemory p).Extends (mappedMemory (createSpace p).2) fun _ => False
  releaseSpace (space : AddressSpace) (p : π) :
    (mappedMemory (releaseSpace space p).2).backing = (mappedMemory p).backing
  setKernelStack (top : Nat) (p : π) :
    (mappedMemory (setKernelStack top p)).backing = (mappedMemory p).backing

instance : LastingPages FlatMachine where
  createSpace m := .of_backing (congrArg MappedMemory.backing m.memoryMap_newSpace)
  releaseSpace _ _ := rfl
  setKernelStack _ _ := rfl

variable {π : Type} [Platform π] [LawfulMemory π]

instance [LastingPages π] : LastingPages (Faulty π) where
  createSpace m := by
    change (mappedMemory m).Extends (mappedMemory (m.attempt .error createSpace).2) _
    rcases m.attempt_cases .error createSpace with ⟨e, h⟩ | h
    · rw [h]
      exact .of_backing rfl
    · rw [h]
      exact LastingPages.createSpace m.machine
  releaseSpace space m := LastingPages.releaseSpace space m.machine
  setKernelStack top m := LastingPages.setKernelStack top m.machine

instance [LastingPages π] : LastingPages (Traced π) where
  createSpace t := LastingPages.createSpace t.machine
  releaseSpace space t := LastingPages.releaseSpace space t.machine
  setKernelStack top t := LastingPages.setKernelStack top t.machine

theorem Grown.toExtends {space : AddressSpace} {user : Bool} {t u : Traced π}
    {entries : List (Page × Frame)} (h : Grown space user t u entries) :
    (mappedMemory t).Extends (mappedMemory u)
      fun page => user = false ∧ page ∈ entries.map Prod.fst := by
  refine ⟨fun s page b => h.kept, ?_⟩
  rintro page ⟨s, b, hb, closed⟩
  by_cases new : s = space ∧ page ∈ entries.map Prod.fst
  · obtain ⟨rfl, hp⟩ := new
    refine .inr ⟨?_, hp⟩
    obtain ⟨e, he, rfl⟩ := List.mem_map.mp hp
    obtain rfl := Option.some.inj ((h.backed e he).symm.trans hb)
    exact closed
  · rw [h.others s page new] at hb
    exact .inl ⟨s, b, hb, closed⟩

namespace UserStack

/-- The address lies in the stack of the slot. -/
def Holds (slot a : Nat) : Prop := top slot ≤ a + KernelStack.defaultSize ∧ a < top slot

theorem mem_pages {slot : Fin maxProcesses} {a : Nat} (h : Holds slot a) :
    Page.containing a ∈ pages slot := by
  have low := slot.isLt
  simp only [Holds, top, regionTop, stride, KernelStack.defaultSize, pageSize] at h
  refine List.mem_map.mpr ⟨a / pageSize, ?_, rfl⟩
  simp only [List.mem_range'_1, top, regionTop, stride, KernelStack.defaultSize, pageSize]
  unfold maxProcesses at low
  omega

theorem slot_unique {slot slot' : Fin maxProcesses} {a a' : Nat} (h : Holds slot a)
    (h' : Holds slot' a') (same : Page.containing a = .containing a') : slot = slot' := by
  have low := slot.isLt
  have low' := slot'.isLt
  have number : a / pageSize = a' / pageSize := congrArg Page.number same
  simp only [Holds, top, regionTop, stride, KernelStack.defaultSize, pageSize] at h h' number
  unfold maxProcesses at low low'
  apply Fin.ext
  omega

end UserStack

/-- What was mapped stays mapped, and nothing is mapped besides but the stack of a slot in a space,
for ring 3. -/
structure StackAdded (m m' : MappedMemory) (space : AddressSpace) (slot : Nat) : Prop where
  kept : ∀ s page b, m.backing s page = some b → m'.backing s page = some b
  added : ∀ s page b, m.backing s page = none → m'.backing s page = some b →
    s = space ∧ page ∈ UserStack.pages slot ∧ b.user = true
  whole : ∀ page ∈ UserStack.pages slot, (m'.backing space page).isSome

namespace StackAdded

variable {m m' m'' : MappedMemory} {space : AddressSpace} {slot : Nat}

theorem congr (h : StackAdded m m' space slot) (same : m''.backing = m'.backing) :
    StackAdded m m'' space slot := by
  constructor
  · rw [same]
    exact h.kept
  · rw [same]
    exact h.added
  · rw [same]
    exact h.whole

theorem toExtends (h : StackAdded m m' space slot) (closing : Page → Prop) :
    m.Extends m' closing := by
  refine ⟨h.kept, ?_⟩
  rintro page ⟨s, b, hb, closed⟩
  rcases before : m.backing s page with _ | b'
  · obtain ⟨-, -, user⟩ := h.added s page b before hb
    rw [closed] at user
    cases user
  · obtain rfl := Option.some.inj ((h.kept s page b' before).symm.trans hb)
    exact .inl ⟨s, b', before, closed⟩

/-- A page of the stack is open to ring 3 exactly if it was not closed before. -/
theorem open_iff (h : StackAdded m m' space slot) {page : Page} (hp : page ∈ UserStack.pages slot) :
    ∃ b, m'.backing space page = some b ∧
      (b.user = true ↔ ∀ old, m.backing space page = some old → old.user = true) := by
  obtain ⟨b, hb⟩ := Option.isSome_iff_exists.mp (h.whole page hp)
  refine ⟨b, hb, ?_⟩
  rcases before : m.backing space page with _ | old
  · obtain ⟨-, -, user⟩ := h.added space page b before hb
    simp [user]
  · obtain rfl := Option.some.inj ((h.kept space page old before).symm.trans hb)
    simp

end StackAdded

namespace ProcessTable

theorem stackAdded_mapStack {space : AddressSpace} {slot : Fin maxProcesses} {t u : Traced π}
    {top : Option Nat} (h : mapStack true space slot t = (.ok top, u)) :
    StackAdded (mappedMemory t) (mappedMemory u) space slot := by
  obtain ⟨entries, grown, sub, all⟩ := mapAllFresh_ok_keeping (.refl space true t) (mapStack_stages h)
  rw [List.nil_append] at grown all
  refine ⟨fun s page b => grown.kept, fun s page b free backed => ?_, fun page hp => ?_⟩
  · by_cases here : s = space ∧ page ∈ entries.map Prod.fst
    · obtain ⟨rfl, hp⟩ := here
      obtain ⟨e, he, rfl⟩ := List.mem_map.mp hp
      obtain rfl := Option.some.inj ((grown.backed e he).symm.trans backed)
      exact ⟨rfl, sub _ hp, rfl⟩
    · rw [grown.others s page here, free] at backed
      cases backed
  · rcases all page hp with new | there
    · obtain ⟨e, he, rfl⟩ := List.mem_map.mp new
      rw [grown.backed e he]
      rfl
    · rw [LawfulMemory.isMapped_eq] at there
      obtain ⟨b, hb⟩ := Option.isSome_iff_exists.mp there
      rw [grown.kept hb]
      rfl

variable {t u : ProcessTable} {p q : Traced π} {closing : Page → Prop}

/-- Loading an image closes pages only for ring 0, and only those that the image touches. -/
theorem extends_loadInto {image : ExecutableImage} {space : AddressSpace} {userland : Bool}
    {info : LoadedImage} (h : loadInto image space userland p = (.ok info, q)) :
    (mappedMemory p).Extends (mappedMemory q) fun page => userland = false ∧ image.Touches page := by
  obtain ⟨r, load, rfl⟩ := loadInto_stages h
  obtain ⟨entering, entered⟩ := undone_enter space p
  obtain ⟨v, entries, mapped, -, -, rfl⟩ := ExecutableImage.load_ok load
  obtain ⟨filling, fills⟩ := ExecutableImage.fills_fillSegments image
    (image.memoryHeaders.map ProgramHeader.segment) v
  obtain ⟨leaving, left⟩ := undone_leave (activeSpace p) space
    ((image.memoryHeaders.map ProgramHeader.segment).foldl (fun p s => image.fillSegment s p) v)
  have grown : (mappedMemory (enter space p)).Extends (mappedMemory v) fun page =>
      userland = false ∧ image.Touches page :=
    mapped.grown.toExtends.mono fun page hp => ⟨hp.1, (mapped.touched page).mp hp.2⟩
  refine .trans (.of_backing entered.backing) (grown.trans (.of_backing ?_))
  rw [left.backing, fills.backing]

/-- A refused image leaves no page behind. -/
theorem extends_loadAndRun {h : ProcessHandle} {image : ExecutableImage}
    {answer : Outcome ProcessError LoadedImage} (hl : t.loadAndRun h image p = (answer, u, q))
    (answered : answer ≠ .aborted) :
    (mappedMemory p).Extends (mappedMemory q) fun page =>
      (∀ c, answer ≠ .error (.load c)) ∧ (∃ r, t.get h = .ok r ∧ r.userland = false) ∧
        image.Touches page := by
  have loaded {r : Process} {info v} (live : t.get h = .ok r)
      (run : loadInto image r.space r.userland p = (.ok info, v))
      (same : (mappedMemory q).backing = (mappedMemory v).backing)
      (accepted : ∀ c, answer ≠ .error (.load c)) :
      (mappedMemory p).Extends (mappedMemory q) fun page =>
        (∀ c, answer ≠ .error (.load c)) ∧ (∃ r, t.get h = .ok r ∧ r.userland = false) ∧
          image.Touches page := by
    refine .trans ((extends_loadInto run).mono ?_) (.of_backing same)
    rintro page ⟨ring, touches⟩
    exact ⟨accepted, ⟨r, live, ring⟩, touches⟩
  cases answer with
  | ok info =>
    obtain ⟨r, top, v, n, live, -, run, -, rfl⟩ := loadAndRun_ok hl
    exact loaded live run (undone_note n v).backing nofun
  | error e =>
    rcases loadAndRun_error_stages hl with ⟨-, rfl, -⟩ |
      ⟨r, live, idle, ⟨c, v, n, run, -, -, rfl⟩ | ⟨info, run, refused⟩⟩
    · exact .of_backing rfl
    · obtain ⟨made, undone⟩ := loadInto_error run
      exact .of_backing (undone.trans (undone_note n v)).backing
    · refine loaded live run rfl fun c same => ?_
      obtain rfl := Outcome.error.inj same
      exact (prepareForRun_error refused).2 c rfl
  | aborted => exact absurd rfl answered

theorem backing_noteDropped (r : Option Frame × Traced π) :
    (mappedMemory (noteDropped r)).backing = (mappedMemory r.2).backing := by
  rcases r with ⟨_ | f, v⟩
  · rfl
  · exact congrArg MappedMemory.backing (LawfulMemory.note _ v)

variable [LastingPages π]

/-- Adding a process closes no page, whether it succeeds or not. -/
theorem extends_create {name : String} {entry : Nat} {userland : Bool}
    {answer : Except ProcessError ProcessHandle}
    (h : t.create name entry userland p = (answer, u, q)) :
    (mappedMemory p).Extends (mappedMemory q) closing := by
  have created : (mappedMemory p).Extends (mappedMemory (createSpace p).2) closing :=
    (LastingPages.createSpace p).mono fun _ => False.elim
  cases answer with
  | ok handle =>
    obtain ⟨slot, space, top, stacked, n, -, -, -, stack, -, -, rfl⟩ := create_stages h
    have noted : mappedMemory (note n stacked) = mappedMemory stacked := LawfulMemory.note n stacked
    rw [noted]
    cases userland with
    | true => exact created.trans ((stackAdded_mapStack stack).toExtends closing)
    | false =>
      cases stack
      exact created
  | error e =>
    rcases create_error_stages h with rfl | ⟨-, ⟨cause, hs⟩ | ⟨slot, space, r, cause, v, hs, hm, rfl⟩⟩
    · exact .of_backing rfl
    · rwa [hs] at created
    · rw [hs] at created
      obtain ⟨made, undone, -⟩ := mapStack_error hm
      have back : (mappedMemory (giveBackSpace space v)).backing = (mappedMemory r).backing := by
        rw [giveBackSpace, backing_noteDropped, LastingPages.releaseSpace, undone.backing]
      exact created.trans (.of_backing back)

theorem steadySwitching_backing :
    SteadySwitching (π := π) fun p => (mappedMemory p).backing where
  view_activate space p := congrArg MappedMemory.backing (LawfulMemory.activate space p)
  view_setKernelStack := LastingPages.setKernelStack
  view_note n p := congrArg MappedMemory.backing (LawfulMemory.note n p)

end ProcessTable

namespace TableState

open ProcessTable

variable [LastingPages π] {p : Traced π} {s u : TableState (Traced π)} {op : Operation} {a : Answer}
  {history : List (Event (Traced π))}

omit [LawfulMemory π] [LastingPages π] in
/-- The call loads an image that touches the page for a process of ring 0, and the image is not
refused. -/
def Event.LoadsForKernel (e : Event (Traced π)) (page : Page) : Prop :=
  ∃ h image q, e.operation = .load h image ∧ (∀ c, e.answer ≠ .loaded (.error (.load c))) ∧
    e.before.table.get h = .ok q ∧ q.userland = false ∧ image.Touches page

theorem extends_step (step : Step s op a u) :
    (mappedMemory s.machine).Extends (mappedMemory u.machine)
      (Event.LoadsForKernel ⟨s, op, a⟩) := by
  have steady : SteadySwitching fun m : Traced π => (mappedMemory m).backing :=
    steadySwitching_backing
  obtain ⟨made, answered⟩ := step
  cases op with
  | create name entry userland =>
    cases a with
    | created answer => exact extends_create (create_of_perform made)
    | _ => cases made
  | load h image =>
    cases a with
    | loaded answer =>
      have finished : answer ≠ .aborted := fun aborted => answered (congrArg _ aborted)
      refine (extends_loadAndRun (load_of_perform made) finished).mono ?_
      rintro page ⟨accepted, ⟨q, live, ring⟩, touches⟩
      exact ⟨h, image, q, rfl, fun c same => accepted c (Answer.loaded.inj same), live, ring, touches⟩
    | _ => cases made
  | prepare h =>
    cases made
    exact .of_backing rfl
  | exit h =>
    cases made
    exact .of_backing rfl
  | reap =>
    cases made
    exact .of_backing (steady.view_reap s.table s.machine)
  | schedule place registers =>
    cases made
    exact .of_backing (steady.view_schedule _ place s.machine)

/-- What is mapped in a state of a run stays mapped to the end of the run. -/
theorem extends_run (run : Run s history u) :
    (mappedMemory s.machine).Extends (mappedMemory u.machine)
      fun page => ∃ e ∈ history, e.LoadsForKernel page := by
  induction run with
  | refl => exact .of_backing rfl
  | @step history t op a u run last ih =>
    refine (ih.mono ?_).trans ((extends_step last).mono ?_)
    · rintro page ⟨e, he, loads⟩
      exact ⟨e, List.mem_append_left _ he, loads⟩
    · intro page loads
      exact ⟨_, List.mem_append_right _ (List.mem_singleton.mpr rfl), loads⟩

omit [LastingPages π] in
theorem Event.Adds.stackAdded {e : Event (Traced π)} {slot : Fin maxProcesses} {q : Process}
    (adds : e.Adds slot q) (ring : q.userland = true)
    (step : Step e.before e.operation e.answer u) :
    StackAdded (mappedMemory (createSpace e.before.machine).2) (mappedMemory u.machine) q.space
      slot := by
  obtain ⟨name, operation, answer, founds⟩ := adds
  obtain ⟨made, -⟩ := step
  rw [operation, answer, ring] at made
  obtain ⟨slot', space, top, stacked, n, -, -, created, stack, same, -, machine⟩ :=
    create_stages (create_of_perform made)
  obtain rfl := congrArg ProcessHandle.slot same
  obtain rfl := Except.ok.inj (created.symm.trans founds.space)
  rw [machine]
  exact (stackAdded_mapStack stack).congr (undone_note n stacked).backing

/-- In all states that a run reaches, each process of ring 3 has all pages of its stack in its space.
A page of it is closed to ring 3 exactly if it was so when the process was added, as the space was
just created. Then it was so at the start somewhere, or an image was loaded there for a process of
ring 0. No two slots have a page of their stacks in common. -/
theorem user_stacks_mapped (run : Run (start p) history s) {slot : Fin maxProcesses} {q : Process}
    (hq : s.table.slots slot = some q) (ring : q.userland = true) :
    q.userStackTop = some (UserStack.top slot) ∧
    (∃ e ∈ history, e.Adds slot q) ∧
    (∀ e ∈ history, e.Adds slot q → ∀ a, UserStack.Holds slot a →
      ∃ b, (mappedMemory s.machine).backing q.space (.containing a) = some b ∧
        (b.user = true ↔ ∀ old, (mappedMemory (createSpace e.before.machine).2).backing q.space
          (.containing a) = some old → old.user = true) ∧
        (b.user = false → (mappedMemory p).Closed (.containing a) ∨
          ∃ e ∈ history, e.LoadsForKernel (.containing a))) ∧
    ∀ other, other ≠ slot → ∀ a a', UserStack.Holds slot a → UserStack.Holds other a' →
      Page.containing a ≠ .containing a' := by
  have coherent : Coherent s.table := Reachable.coherent ⟨history, run⟩
  have user : slot ≠ kernelSlot := fun own => by
    rw [coherent.userland_of_kernelSlot hq own] at ring
    cases ring
  have top := Reachable.userStackTop_eq ⟨history, run⟩ hq
  rw [if_pos ring] at top
  refine ⟨top, adds_run run hq user, ?_, ?_⟩
  · intro e he adds a ha
    obtain ⟨earlier, later, v, -, step, after, -⟩ := run.split he
    obtain ⟨b, hb, iff⟩ := (adds.stackAdded ring step).open_iff (UserStack.mem_pages ha)
    have still := (extends_run after).kept q.space _ b hb
    refine ⟨b, still, iff, fun closed => ?_⟩
    exact (extends_run run).closed _ ⟨q.space, b, still, closed⟩
  · intro other away a a' ha ha' same
    exact away (UserStack.slot_unique ha' ha same.symm)

/-- Two programs of ring 3 are added. -/
def twoPrograms : List Operation := [.create "init" 0x400000 true, .create "shell" 0x500000 true]

def watchedStart : TableState (Traced FlatMachine) := start ⟨{}, []⟩

theorem user_stacks_mapped_two_programs :
    Run watchedStart (watchedStart.record twoPrograms) (watchedStart.after twoPrograms) ∧
      ∃ q, (watchedStart.after twoPrograms).table.slots ⟨2, by decide⟩ = some q ∧
        q.userland = true ∧ ∀ a, UserStack.Holds 2 a →
          ∃ b, (mappedMemory (watchedStart.after twoPrograms).machine).backing q.space
            (.containing a) = some b ∧ b.user = true := by
  have run := run_record watchedStart twoPrograms (by decide)
  obtain ⟨q, hq, ring⟩ : ∃ q, (watchedStart.after twoPrograms).table.slots ⟨2, by decide⟩ = some q ∧
      q.userland = true := ⟨_, rfl, rfl⟩
  obtain ⟨-, ⟨e, he, adds⟩, pages, -⟩ := user_stacks_mapped run hq ring
  refine ⟨run, q, hq, ring, fun a ha => ?_⟩
  obtain ⟨b, hb, -, cause⟩ := pages e he adds a ha
  refine ⟨b, hb, ?_⟩
  cases user : b.user with
  | true => rfl
  | false =>
    rcases cause user with ⟨space, b', none, -⟩ | ⟨e, he, h, image, r, load, -⟩
    · cases none
    · have created : ∀ e ∈ watchedStart.record twoPrograms, e.operation ∈ twoPrograms := by
        simp [record, twoPrograms]
      have op := created e he
      rw [load] at op
      simp [twoPrograms] at op

/-- An image for ring 0 that takes the first bytes of the upper page of the stack of slot 2. -/
def intruder : ExecutableImage :=
  .written 0x400000 [⟨ExecutableImage.loadable, 120, 0x7fffefff9000, 4, 8⟩] [1, 2, 3, 4]

def intrusion : List Operation :=
  [.create "idle" 0x400000 false, .load .first intruder, .create "init" 0x400000 true]

/-- A process of ring 3 whose stack starts in a page that is closed to it. -/
theorem user_stack_closed :
    Run watchedStart (watchedStart.record intrusion) (watchedStart.after intrusion) ∧
      ∃ q b, (watchedStart.after intrusion).table.slots ⟨2, by decide⟩ = some q ∧
        q.userland = true ∧ q.userStackTop = some 0x7fffefffa000 ∧
        UserStack.Holds 2 0x7fffefff9ff8 ∧
        (mappedMemory (watchedStart.after intrusion).machine).backing q.space
          (.containing 0x7fffefff9ff8) = some b ∧ b.user = false := by
  have found : ((watchedStart.after intrusion).table.slots ⟨2, by decide⟩).map (fun q =>
      (q.userland, q.userStackTop, ((mappedMemory (watchedStart.after intrusion).machine).backing
        q.space (.containing 0x7fffefff9ff8)).map Backing.user)) =
      some (true, some 0x7fffefffa000, some false) := by decide +kernel
  obtain ⟨q, hq, same⟩ := Option.map_eq_some_iff.mp found
  obtain ⟨ring, top, backed⟩ : q.userland = true ∧ q.userStackTop = some 0x7fffefffa000 ∧ _ = _ := by
    simpa only [Prod.mk.injEq] using same
  obtain ⟨b, hb, closed⟩ := Option.map_eq_some_iff.mp backed
  refine ⟨run_record watchedStart intrusion (by decide +kernel), q, b, hq, ring, top, ?_, hb, closed⟩
  constructor <;> decide

end TableState
end KernelCore
