import KernelCore.Proofs.KernelRuns
import KernelCore.Proofs.ProcessStarts
import KernelCore.Proofs.UserHalf
import KernelCore.Proofs.UserStacks

/-!
# How spawning a program ends

To spawn a program its entry point is looked up, a process is added that starts there, and the image
is loaded for it. If all goes well, the process is ready to take its first step. If the entry point
or the process is refused, nothing has happened. If the image is refused, the process stays behind:
it is stopped, has nothing to go on from, and keeps the stack that was mapped for it. Nobody else is
touched in any case.
-/
namespace KernelCore

open ProcessTable TableState

variable {π : Type} [Platform π] [LawfulMemory π]

/-- The space is not one that the machine has yet to create. -/
def Standing {π : Type} [Platform π] (p : π) (space : AddressSpace) : Prop :=
  (createSpace p).1 = .ok space → space = activeSpace p

namespace ProcessTable

variable {t u : ProcessTable} {name : String} {entry : Nat} {userland : Bool} {e : ProcessError}
  {p q : Traced π} {space : AddressSpace}

/-- A process that cannot be added leaves the pages of every space that stands as they are. -/
theorem backing_create_error [LawfulPlatform π] [LawfulSpaces π]
    (h : t.create name entry userland p = (.error e, u, q)) (standing : Standing p space) :
    (mappedMemory q).backing space = (mappedMemory p).backing space := by
  have created := LawfulSpaces.createSpace p space standing
  rcases create_error_stages h with rfl | ⟨-, ⟨cause, hs⟩ | ⟨slot, new, r, cause, v, hs, hm, rfl⟩⟩
  · rfl
  · rwa [hs] at created
  · rw [hs] at created
    obtain ⟨made, undone, -⟩ := mapStack_error hm
    obtain ⟨more, -, -, -, -, -, back⟩ := giveBackSpace_calls new v
    have steady : Steady (π := Traced π) activeSpace := LawfulPlatform.steady_activeSpace
    have active : activeSpace v = activeSpace p := by
      have mapped := steady.mapping.view_mapStack userland new slot r
      have first := steady.view_createSpace p
      rw [hm] at mapped
      rw [hs] at first
      exact mapped.trans first
    have released := LawfulSpaces.releaseSpace new space v fun same => by
      rw [active]
      exact standing (by rw [hs, same])
    rw [back, released, undone.backing]
    exact created

end ProcessTable

namespace ExecutableImage

theorem header_of_entryPoint {image : ExecutableImage} {entry : Nat}
    (h : image.entryPoint = .ok entry) :
    ∃ header, image.header = .ok header ∧ header.entry = entry := by
  rw [entryPoint] at h
  split at h
  · cases h
  · rename_i header found
    split at h
    · cases h
      exact ⟨header, found, rfl⟩
    · cases h

end ExecutableImage

namespace TableState

variable {s u : TableState (Traced π)} {name : String} {entry : Nat} {h : ProcessHandle}
  {q : Process}

/-- A process of ring 3 has come in under this handle, in a slot that was free, with a stack in its
space and one in the kernel. -/
structure Admits (s : TableState (Traced π)) (name : String) (entry : Nat) (h : ProcessHandle)
    (q : Process) (u : TableState (Traced π)) : Prop where
  vacant : s.table.slots h.slot = none
  number : h.pid = s.table.nextPid
  table : u.table = s.table.added h.slot q
  founds : Founds s name entry true h q
  state : q.state = .ready
  kernelStack : q.kernelStack = some (.forProcess (stackRegion s.machine) h.pid)
  stackTop : q.stackTop = some (UserStack.top h.slot)
  stack : StackAdded (mappedMemory (createSpace s.machine).2) (mappedMemory u.machine) q.space h.slot
  active : activeSpace u.machine = activeSpace s.machine

theorem admits_create [LawfulPlatform π] [FixedStacks π]
    (made : s.perform (.create name entry true) = (.created (.ok h), u)) :
    ∃ q, Admits s name entry h q u := by
  have active := LawfulPlatform.steady_activeSpace.view_create s.table name entry true s.machine
  rw [create_of_perform made] at active
  obtain ⟨slot, space, top, stacked, n, free, -, created, stack, rfl, table, machine⟩ :=
    create_stages (create_of_perform made)
  refine ⟨_, slots_freeSlot free, rfl, table, ⟨rfl, rfl, rfl, rfl, created⟩, rfl, ?_, rfl, ?_, active⟩
  · exact congrArg (fun r => some (KernelStack.forProcess r s.table.nextPid))
      (stackRegion_mapStack stack)
  · rw [machine]
    exact (stackAdded_mapStack stack).congr (undone_note n stacked).backing

theorem Admits.live (admits : Admits s name entry h q u) : u.table.get h = .ok q := by
  rw [get_eq_ok, admits.table, slots_added, if_pos rfl]
  exact ⟨rfl, admits.founds.pid⟩

theorem Admits.preparable (admits : Admits s name entry h q u) :
    Preparable q (UserStack.top h.slot) where
  not_running := by simp [admits.state]
  not_exited := by simp [admits.state]
  kernelStack := by rw [admits.kernelStack]; rfl
  stackTop := admits.stackTop

/-- A process has come in, and no other slot, nor the current process, nor the active space is any
different. -/
structure Enters (s : TableState (Traced π)) (name : String) (entry : Nat) (h : ProcessHandle)
    (q : Process) (u : TableState (Traced π)) : Prop where
  vacant : s.table.slots h.slot = none
  number : h.pid = s.table.nextPid
  founds : Founds s name entry true h q
  live : u.table.get h = .ok q
  others : ∀ slot, slot ≠ h.slot → u.table.slots slot = s.table.slots slot
  current : u.table.current = s.table.current
  active : activeSpace u.machine = activeSpace s.machine

/-- The process that has come in is ready, with a frame in the highest bytes of its own stack in the
kernel that takes it to its entry point. -/
structure Starts (s : TableState (Traced π)) (name : String) (entry : Nat) (h : ProcessHandle)
    (q : Process) (u : TableState (Traced π)) : Prop extends Enters s name entry h q u where
  below : entry < userSpaceEnd
  ready : q.state = .ready
  frame : ∃ stack place a, q.kernelStack = some stack ∧ q.saved = some place ∧
    place.address? (stackRegion s.machine) = some a ∧ stack.HoldsFrame a ∧
    u.table.frames place = .atEntry entry true (UserStack.top h.slot)

/-- The process that has come in is stopped, with nothing to go on from. No page but those of its
stack has been mapped, apart from what comes with a space that is new. -/
structure LeftBehind (s : TableState (Traced π)) (name : String) (entry : Nat) (h : ProcessHandle)
    (q : Process) (u : TableState (Traced π)) : Prop extends Enters s name entry h q u where
  stopped : q.state = .stopped
  saved : q.saved = none
  frames : u.table.frames = s.table.frames
  spaces : ∀ space, Standing s.machine space →
    (mappedMemory (createSpace s.machine).2).backing space = (mappedMemory s.machine).backing space
  stack : StackAdded (mappedMemory (createSpace s.machine).2) (mappedMemory u.machine) q.space h.slot

section Loading

variable {v : TableState (Traced π)} {image : ExecutableImage} {info : LoadedImage}
  {state : ProcessState} {saved : Option FramePlace}

theorem Admits.enters (admits : Admits s name entry h q u)
    (slots : ∀ slot, v.table.slots slot =
      if slot = h.slot then some (q.settle state saved) else u.table.slots slot)
    (current : v.table.current = u.table.current)
    (active : activeSpace v.machine = activeSpace u.machine) :
    Enters s name entry h (q.settle state saved) v := by
  refine ⟨admits.vacant, admits.number, ?_, ?_, ?_, ?_, active.trans admits.active⟩
  · exact ⟨admits.founds.pid, admits.founds.name, admits.founds.entry, admits.founds.userland,
      admits.founds.space⟩
  · rw [get_eq_ok, slots, if_pos rfl]
    exact ⟨rfl, admits.founds.pid⟩
  · intro slot other
    rw [slots, if_neg other, admits.table, slots_added, if_neg other]
  · rw [current, admits.table]
    rfl

variable [LawfulPlatform π]

omit [LawfulMemory π] in
theorem activeSpace_load {answer : Outcome ProcessError LoadedImage}
    (made : u.perform (.load h image) = (.loaded answer, v)) (answered : answer ≠ .aborted) :
    activeSpace v.machine = activeSpace u.machine := by
  have loaded := load_of_perform made
  have same := view_loadAndRun (t := u.table) (p := u.machine) LawfulPlatform.steady_activeSpace
    (fun _ _ => activeSpace_loadInto) (by rwa [loaded])
  rwa [loaded] at same

/-- The entry point that the image was loaded with is the one that the process was added with. -/
theorem Admits.starts (admits : Admits s name entry h q u) (asked : image.entryPoint = .ok entry)
    (made : u.perform (.load h image) = (.loaded (.ok info), v)) :
    ∃ q, Starts s name entry h q v := by
  have active := activeSpace_load made nofun
  rcases load : u.table.loadAndRun h image u.machine with ⟨answer, t, w⟩
  rw [perform_load, load] at made
  cases made
  obtain ⟨r, top, loaded, n, live, can, run, rfl, rfl⟩ := loadAndRun_ok load
  obtain rfl := Except.ok.inj (admits.live.symm.trans live)
  obtain rfl := Option.some.inj (admits.stackTop.symm.trans can.stackTop)
  rw [admits.founds.userland] at run
  obtain ⟨same, lower⟩ := (asks_loadInto run).2 info rfl
  obtain rfl := Except.ok.inj (asked.symm.trans same)
  refine ⟨_, admits.enters (slots_readied _ _ · _ _) rfl active, lower rfl, rfl,
    _, _, _, admits.kernelStack, rfl, rfl, ?_, ?_⟩
  · rw [admits.founds.pid]
    exact KernelStack.holdsFrame_forProcess _ _
  · refine (frames_setFrame_self _ _ _).trans ?_
    rw [initialFrame_eq, admits.founds.entry, admits.founds.userland, if_pos rfl]

/-- Only the image can be refused, since the process is fit to be made ready. -/
theorem Admits.leftBehind [LawfulSpaces π] {e : ProcessError} (admits : Admits s name entry h q u)
    (made : u.perform (.load h image) = (.loaded (.error e), v)) :
    (∃ c, e = .load c) ∧ ∃ q, LeftBehind s name entry h q v := by
  have active := activeSpace_load made nofun
  rcases load : u.table.loadAndRun h image u.machine with ⟨answer, t, w⟩
  rw [perform_load, load] at made
  cases made
  have idle : q.state ≠ .running := admits.preparable.not_running
  rw [loadAndRun, admits.live] at load
  dsimp only at load
  rw [if_neg idle] at load
  split at load
  · cases load
  · rename_i c m failed
    obtain ⟨calls, undone⟩ := loadInto_error failed
    cases load
    refine ⟨⟨c, rfl⟩, _, admits.enters (slots_setSlot _ _ · _) rfl active, rfl, rfl, ?_,
      LawfulSpaces.createSpace s.machine, ?_⟩
    · rw [admits.table]
      rfl
    · exact admits.stack.congr (undone.trans (undone_note _ m)).backing
  · rw [prepareForRun_of_preparable admits.live admits.preparable] at load
    cases load

end Loading

end TableState

namespace Kernel

variable {δ : Type} {k k' : Kernel (Traced π) δ} {name : String} {image : ExecutableImage}
  {answer : Outcome ProcessError ProcessHandle}

/-- The process table of a kernel with its machine. -/
def state (k : Kernel (Traced π) δ) : TableState (Traced π) := ⟨k.processes, k.platform⟩

omit [LawfulMemory π] in
theorem perform_create (k : Kernel (Traced π) δ) (name : String) (entry : Nat) (userland : Bool) :
    k.state.perform (.create name entry userland) =
      (.created (k.createProcess name entry userland).1,
        (k.createProcess name entry userland).2.state) := rfl

omit [LawfulMemory π] in
theorem perform_load (k : Kernel (Traced π) δ) (h : ProcessHandle) (image : ExecutableImage) :
    k.state.perform (.load h image) =
      (.loaded (k.loadProcess h image).1, (k.loadProcess h image).2.state) := rfl

omit [LawfulMemory π] in
/-- The three calls that spawning a program is made of, with all the ways they can end. -/
theorem spawnImage_cases (spawned : k.spawnImage name image = (answer, k'))
    (answered : answer ≠ .aborted) :
    (∃ c, image.entryPoint = .error c ∧ answer = .error (.load c) ∧ k' = k) ∨
      ∃ entry, image.entryPoint = .ok entry ∧
        ((∃ e, k.createProcess name entry true = (.error e, k') ∧ answer = .error e) ∨
          ∃ h k₁, k.createProcess name entry true = (.ok h, k₁) ∧
            ((∃ info, k₁.state.perform (.load h image) = (.loaded (.ok info), k'.state) ∧
                answer = .ok h) ∨
              ∃ e, k₁.state.perform (.load h image) = (.loaded (.error e), k'.state) ∧
                answer = .error e)) := by
  rw [spawnImage] at spawned
  split at spawned
  · rename_i c refused
    cases spawned
    exact .inl ⟨c, refused, rfl, rfl⟩
  · rename_i entry asked
    refine .inr ⟨entry, asked, ?_⟩
    split at spawned
    · rename_i e k₁ refused
      cases spawned
      exact .inl ⟨e, refused, rfl⟩
    · rename_i h k₁ created
      refine .inr ⟨h, k₁, created, ?_⟩
      split at spawned
      · rename_i info k₂ loaded
        cases spawned
        exact .inl ⟨info, by rw [perform_load, loaded], rfl⟩
      · rename_i e k₂ failed
        cases spawned
        exact .inr ⟨e, by rw [perform_load, failed], rfl⟩
      · cases spawned
        exact absurd rfl answered

section Endings

variable {entry : Nat} {h : ProcessHandle} {e : ProcessError}

/-- A process that was left behind stopped will not run before an event is about it. -/
theorem currentHandle_ne_of_leftBehind [Services δ] {q : Process}
    (behind : LeftBehind k.state name entry h q k'.state) (coherent : Coherent k'.processes)
    {later : List (KernelEvent δ)} (away : ∀ event ∈ later, event.subject ≠ some h) :
    (k'.afterAll later).processes.currentHandle ≠ h := by
  have rests : Rests k'.processes h .stopped := ⟨q, behind.live, behind.stopped, behind.saved⟩
  exact (rests_afterAll coherent rests nofun nofun away).2

variable [LawfulPlatform π] [FixedStacks π]

theorem admits_createProcess {k₁ : Kernel (Traced π) δ}
    (created : k.createProcess name entry true = (.ok h, k₁)) :
    ∃ q, Admits k.state name entry h q k₁.state := by
  have step : k.state.perform (.create name entry true) = (.created (.ok h), k₁.state) := by
    rw [perform_create, created]
  exact admits_create step

theorem starts_spawnImage (spawned : k.spawnImage name image = (.ok h, k')) :
    ∃ header q, image.header = .ok header ∧ Starts k.state name header.entry h q k'.state := by
  rcases spawnImage_cases spawned nofun with ⟨c, -, failed, -⟩ |
    ⟨entry, asked, ⟨e, -, failed⟩ | ⟨h', k₁, created, ⟨info, loaded, same⟩ | ⟨e, -, failed⟩⟩⟩
  · cases failed
  · cases failed
  · cases same
    obtain ⟨header, found, rfl⟩ := ExecutableImage.header_of_entryPoint asked
    obtain ⟨q, admits⟩ := admits_createProcess created
    obtain ⟨r, starts⟩ := admits.starts asked loaded
    exact ⟨header, r, found, starts⟩
  · cases failed

variable [LawfulSpaces π]

omit [FixedStacks π] in
/-- If no process can be added, the table and the spaces that stand are as they were. -/
theorem refused_createProcess (refused : k.createProcess name entry true = (.error e, k')) :
    k'.processes = k.processes ∧ activeSpace k'.platform = activeSpace k.platform ∧
      ∀ space, Standing k.platform space →
        (mappedMemory k'.platform).backing space = (mappedMemory k.platform).backing space := by
  rcases hc : k.processes.create name entry true k.platform with ⟨result, t, p⟩
  have active := LawfulPlatform.steady_activeSpace.view_create k.processes name entry true k.platform
  rw [hc] at active
  rw [createProcess, hc] at refused
  cases refused
  exact ⟨create_error hc, active, fun space => backing_create_error hc⟩

variable [Services δ]

/-- A program is spawned by a kernel to which anything may have happened. If that succeeds, a new
process is ready to take its first step at the entry point of the image. If it fails, the image has no
entry point and nothing was done, or no process could be added and nothing has changed, or the image
was refused and a new process is left behind. That process is stopped and will not be the current one
before somebody calls for it. -/
theorem spawned_program_ends (platform : Traced π) (services : δ) (events : List (KernelEvent δ))
    (reached : k = (Kernel.new platform services).afterAll events)
    (spawned : k.spawnImage name image = (answer, k')) :
    (∀ h, answer = .ok h → ∃ header q, image.header = .ok header ∧
      Starts k.state name header.entry h q k'.state) ∧
    ∀ e, answer = .error e →
      (∃ c, image.entryPoint = .error c ∧ e = .load c ∧ k' = k) ∨
      ∃ header, image.header = .ok header ∧ image.entryPoint = .ok header.entry ∧
        (((k.createProcess name header.entry true).1 = .error e ∧
            k'.processes = k.processes ∧ activeSpace k'.platform = activeSpace k.platform ∧
            ∀ space, Standing k.platform space →
              (mappedMemory k'.platform).backing space = (mappedMemory k.platform).backing space) ∨
          ∃ h q c, (k.createProcess name header.entry true).1 = .ok h ∧ e = .load c ∧
            LeftBehind k.state name header.entry h q k'.state ∧
            ∀ later : List (KernelEvent δ), (∀ event ∈ later, event.subject ≠ some h) →
              (k'.afterAll later).processes.currentHandle ≠ h) := by
  have coherent : Coherent k'.processes := by
    have first : Coherent (Kernel.new platform services).processes :=
      coherent_new (activeSpace platform)
    have before : Coherent k.processes := reached ▸ coherent_afterAll first events
    obtain ⟨ops, moves, -⟩ := k.moves_spawnImage name image
    rw [spawned] at moves
    exact moves.coherent before
  constructor
  · rintro h rfl
    exact starts_spawnImage spawned
  · rintro e rfl
    rcases spawnImage_cases spawned nofun with ⟨c, refused, failed, same⟩ | ⟨entry, asked, ends⟩
    · cases failed
      exact .inl ⟨c, refused, rfl, same⟩
    · obtain ⟨header, found, rfl⟩ := ExecutableImage.header_of_entryPoint asked
      refine .inr ⟨header, found, asked, ?_⟩
      rcases ends with ⟨e, refused, same⟩ | ⟨h, k₁, created, ⟨info, -, started⟩ | ⟨e, failed, same⟩⟩
      · cases same
        exact .inl ⟨by rw [refused], refused_createProcess refused⟩
      · cases started
      · cases same
        obtain ⟨q, admits⟩ := admits_createProcess created
        obtain ⟨⟨c, rfl⟩, r, behind⟩ := admits.leftBehind failed
        exact .inr ⟨h, r, c, by rw [created], rfl, behind,
          fun later away => currentHandle_ne_of_leftBehind behind coherent away⟩

end Endings

/-- A program was spawned, and its pages are taken in the only space. -/
def spawnedOnce : Kernel (Traced FlatMachine) Desk :=
  (Kernel.new ⟨{}, []⟩ {}).afterAll [.spawn "init" .straddling]

theorem spawned_program_ends_twice :
    spawnedOnce = (Kernel.new ⟨{}, []⟩ {}).afterAll [.spawn "init" .straddling] ∧
      ∃ h q k', spawnedOnce.spawnImage "init" .straddling =
          (.error (.load (.mapFailed .alreadyMapped)), k') ∧
        LeftBehind spawnedOnce.state "init" 0x400000 h q k'.state ∧
        ∀ later : List (KernelEvent Desk), (∀ event ∈ later, event.subject ≠ some h) →
          (k'.afterAll later).processes.currentHandle ≠ h := by
  have failed : (spawnedOnce.spawnImage "init" .straddling).1 =
      .error (.load (.mapFailed .alreadyMapped)) := by decide +kernel
  obtain ⟨k', spawned⟩ : ∃ k', spawnedOnce.spawnImage "init" .straddling =
      (.error (.load (.mapFailed .alreadyMapped)), k') := ⟨_, by rw [← failed]⟩
  have asked : ExecutableImage.straddling.entryPoint = .ok 0x400000 := by decide +kernel
  have created : (spawnedOnce.createProcess "init" 0x400000 true).1.toBool = true := by
    decide +kernel
  have reached : spawnedOnce =
      (Kernel.new ⟨{}, []⟩ {}).afterAll [.spawn "init" .straddling] := rfl
  obtain ⟨-, ends⟩ := spawned_program_ends _ _ _ reached spawned
  rcases ends _ rfl with ⟨c, refused, -⟩ | ⟨header, -, asked', halves⟩
  · cases asked.symm.trans refused
  · obtain entry : 0x400000 = header.entry := Except.ok.inj (asked.symm.trans asked')
    rw [← entry] at halves
    rcases halves with ⟨refused, -⟩ | ⟨h, q, c, -, -, behind, never⟩
    · rw [refused] at created
      cases created
    · exact ⟨reached, h, q, k', spawned, behind, never⟩

end Kernel
end KernelCore
