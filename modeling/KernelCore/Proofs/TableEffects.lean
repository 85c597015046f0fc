import KernelCore.Proofs.LawfulPlatform
import KernelCore.Proofs.TableRuns

/-!
# Effects of table calls

What each call can do to the process table, said once: `Effect` lists the outcomes, each with the
conditions under which it comes about, and `effect_of_step` says that there are no others. All that
is proved about runs is drawn from it.
-/
namespace KernelCore

namespace Process

/-- The process in another state and with another place to go on from. Nothing else about a process
ever changes. -/
def settle (q : Process) (state : ProcessState) (saved : Option FramePlace) : Process :=
  { q with state, saved }

variable (q : Process) (state : ProcessState) (saved : Option FramePlace)

@[simp] theorem settle_pid : (q.settle state saved).pid = q.pid := rfl
@[simp] theorem settle_state : (q.settle state saved).state = state := rfl
@[simp] theorem settle_entry : (q.settle state saved).entry = q.entry := rfl
@[simp] theorem settle_userland : (q.settle state saved).userland = q.userland := rfl
@[simp] theorem settle_space : (q.settle state saved).space = q.space := rfl
@[simp] theorem settle_kernelStack : (q.settle state saved).kernelStack = q.kernelStack := rfl
@[simp] theorem settle_stackTop : (q.settle state saved).stackTop = q.stackTop := rfl
@[simp] theorem settle_trapStackTop : (q.settle state saved).trapStackTop = q.trapStackTop := rfl
@[simp] theorem settle_saved : (q.settle state saved).saved = saved := rfl

end Process

namespace ProcessTable

theorem slots_setSlot (t : ProcessTable) (slot s : Fin maxProcesses) (p : Option Process) :
    (t.setSlot slot p).slots s = if s = slot then p else t.slots s := by
  split
  · rename_i h
    rw [h, slots_setSlot_self]
  · rename_i h
    exact slots_setSlot_other t p h

@[simp] theorem slots_setFrame (t : ProcessTable) (place : FramePlace) (f : Trapframe) :
    (t.setFrame place f).slots = t.slots := rfl

theorem get_eq_ok {t : ProcessTable} {h : ProcessHandle} {q : Process} :
    t.get h = .ok q ↔ t.slots h.slot = some q ∧ q.pid = h.pid := by
  rw [get]
  cases t.slots h.slot with
  | none => simp
  | some r =>
    by_cases hr : r.pid = h.pid
    · simp only [hr, if_true, Except.ok.injEq, Option.some.injEq]
      constructor
      · rintro rfl
        exact ⟨rfl, hr⟩
      · exact And.left
    · simp only [hr, if_false, reduceCtorEq, Option.some.injEq, false_iff, not_and]
      rintro rfl
      exact hr

theorem handle_eq_of_slot {t : ProcessTable} {h h' : ProcessHandle} {q q' : Process}
    (live : t.get h = .ok q) (live' : t.get h' = .ok q') (hs : h.slot = h'.slot) : h = h' := by
  obtain ⟨hq, hpid⟩ := get_eq_ok.mp live
  obtain ⟨hq', hpid'⟩ := get_eq_ok.mp live'
  rw [← hs, hq] at hq'
  obtain rfl := Option.some.inj hq'
  cases h
  cases h'
  cases hs
  cases hpid
  cases hpid'
  rfl

theorem get_error {t : ProcessTable} {h : ProcessHandle} {e : ProcessError}
    (hg : t.get h = .error e) : e = .staleHandle := by
  rw [get] at hg
  split at hg
  · split at hg <;> cases hg
    rfl
  · cases hg
    rfl

/-- The table after a tick has stored the registers of the running process. -/
def interrupted (t : ProcessTable) (place : FramePlace) (registers : Trapframe) : ProcessTable :=
  (t.setFrame place registers).saveCurrent place

theorem slots_interrupted (t : ProcessTable) (place : FramePlace) (registers : Trapframe)
    (s : Fin maxProcesses) :
    (t.interrupted place registers).slots s =
      if s = t.current then (t.slots s).map fun q => q.settle q.state (some place)
      else t.slots s := by
  change ((t.setFrame place registers).setSlot t.current _).slots s = _
  rw [slots_setSlot]
  split
  · rename_i h
    rw [h]
    rfl
  · rfl

theorem currentHandle_interrupted (t : ProcessTable) (place : FramePlace) (registers : Trapframe) :
    (t.interrupted place registers).currentHandle = t.currentHandle := by
  have hslot := t.slots_interrupted place registers t.current
  rw [if_pos rfl] at hslot
  have hpid : (t.interrupted place registers).pidOf t.current = t.pidOf t.current := by
    rw [pidOf, hslot, Option.map_map]
    rfl
  exact congrArg (ProcessHandle.mk t.current) hpid

theorem preempted_eq (q : Process) :
    preempted q = q.settle (if q.state = .running then .ready else q.state) q.saved := by
  rw [preempted]
  split <;> rfl

theorem slots_handOver (t : ProcessTable) {next : Fin maxProcesses} (h : next ≠ t.current)
    (s : Fin maxProcesses) :
    (t.handOver next).slots s =
      if s = next then (t.slots s).map fun q => q.settle .running q.saved
      else if s = t.current then (t.slots s).map preempted else t.slots s := by
  change ((t.setSlot t.current _).setSlot next _).slots s = _
  rw [slots_setSlot, slots_setSlot_other t _ h]
  split
  · rename_i hs
    rw [hs]
    rfl
  · rw [slots_setSlot]
    split
    · rename_i hs
      rw [hs]
    · rfl

theorem slots_switched (t : ProcessTable) (place : FramePlace) (registers : Trapframe)
    {next : Fin maxProcesses} (other : next ≠ t.current) (s : Fin maxProcesses) :
    ((t.interrupted place registers).handOver next).slots s =
      if s = next then (t.slots s).map fun q => q.settle .running q.saved
      else if s = t.current then (t.slots s).map fun q =>
        q.settle (if q.state = .running then .ready else q.state) (some place)
      else t.slots s := by
  have hcur : (t.interrupted place registers).current = t.current := rfl
  rw [slots_handOver _ (hcur ▸ other), slots_interrupted, hcur]
  split
  · rename_i hs
    rw [if_neg (hs ▸ other)]
  · split
    · rw [Option.map_map]
      congr 1
      funext q
      exact preempted_eq _
    · rfl

theorem slots_freeSlot {t : ProcessTable} {slot : Fin maxProcesses}
    (h : t.freeSlot? = some slot) : t.slots slot = none := by
  have hn := List.find?_some h
  exact Option.isNone_iff_eq_none.mp hn

/-- A process that was just added. -/
def newcomer (t : ProcessTable) (name : String) (entry : Nat) (userland : Bool)
    (space : AddressSpace) (region : Nat) (userStackTop : Option Nat) : Process where
  pid := t.nextPid
  name := .ofString name
  state := .ready
  entry := entry
  userland := userland
  space := space
  kernelStack := some (.forProcess region t.nextPid)
  userStackTop := userStackTop
  saved := none

/-- The table with one more process. -/
def added (t : ProcessTable) (slot : Fin maxProcesses) (q : Process) : ProcessTable :=
  { t.setSlot slot (some q) with nextPid := t.nextPid + 1 }

theorem slots_added (t : ProcessTable) (slot s : Fin maxProcesses) (q : Process) :
    (t.added slot q).slots s = if s = slot then some q else t.slots s :=
  t.slots_setSlot slot s (some q)

theorem slots_added_cases {t : ProcessTable} {slot s : Fin maxProcesses} {q r : Process}
    (h : (t.added slot q).slots s = some r) :
    (s = slot ∧ r = q) ∨ (s ≠ slot ∧ t.slots s = some r) := by
  rw [slots_added] at h
  split at h
  · rename_i hs
    exact .inl ⟨hs, (Option.some.inj h).symm⟩
  · rename_i hs
    exact .inr ⟨hs, h⟩

/-- The table in which the process of a slot is ready to start. -/
def readied (t : ProcessTable) (slot : Fin maxProcesses) (q : Process) (top : Nat) :
    ProcessTable :=
  (t.setFrame (initialPlace q) (initialFrame q top)).setSlot slot
    (some (q.settle .ready (some (initialPlace q))))

theorem slots_readied (t : ProcessTable) (slot s : Fin maxProcesses) (q : Process) (top : Nat) :
    (t.readied slot q top).slots s =
      if s = slot then some (q.settle .ready (some (initialPlace q))) else t.slots s :=
  (t.setFrame (initialPlace q) (initialFrame q top)).slots_setSlot slot s _

theorem get_readied {t : ProcessTable} {h : ProcessHandle} {q : Process} (live : t.get h = .ok q)
    (top : Nat) : (t.readied h.slot q top).get h =
      .ok (q.settle .ready (some (initialPlace q))) := by
  rw [get_eq_ok, slots_readied, if_pos rfl]
  exact ⟨rfl, (get_eq_ok.mp live).2⟩

/-- The process can be made ready: it is neither running nor over, has a stack in the kernel and
knows where its stack starts. -/
structure Preparable (q : Process) (top : Nat) : Prop where
  not_running : q.state ≠ .running
  not_exited : q.state ≠ .exited
  kernelStack : q.kernelStack.isSome
  stackTop : q.stackTop = some top

theorem prepareForRun_ok {t u : ProcessTable} {h : ProcessHandle} {place : FramePlace}
    (hp : t.prepareForRun h = (.ok place, u)) :
    ∃ q top, t.get h = .ok q ∧ Preparable q top ∧ place = initialPlace q ∧
      u = t.readied h.slot q top := by
  rw [prepareForRun] at hp
  split at hp
  · cases hp
  · rename_i q hq
    split at hp
    · cases hp
    · rename_i hstate
      split at hp
      · rename_i stack top hstack htop
        cases hp
        have hown : q.kernelStack.isSome := by
          rw [hstack]
          rfl
        have can : Preparable q top :=
          ⟨fun e => hstate (.inl e), fun e => hstate (.inr e), hown, htop⟩
        exact ⟨q, top, hq, can, rfl, rfl⟩
      · cases hp

theorem prepareForRun_error {t u : ProcessTable} {h : ProcessHandle} {e : ProcessError}
    (hp : t.prepareForRun h = (.error e, u)) : u = t ∧ ∀ c, e ≠ .load c := by
  rw [prepareForRun] at hp
  split at hp
  · rename_i e' he
    cases hp
    cases get_error he
    exact ⟨rfl, nofun⟩
  · split at hp
    · cases hp
      exact ⟨rfl, nofun⟩
    · split at hp <;> cases hp
      exact ⟨rfl, nofun⟩

variable {π : Type} [Platform π]

/-- Only a process of ring 3 gets a stack in its space, that of its slot. -/
theorem mapStack_ok {userland : Bool} {space : AddressSpace} {slot : Fin maxProcesses} {p q : π}
    {top : Option Nat} (h : mapStack userland space slot p = (.ok top, q)) :
    top = if userland then some (UserStack.top slot) else none := by
  rw [mapStack] at h
  split at h
  · rename_i hu
    rw [if_pos hu]
    rw [UserStack.map] at h
    split at h
    · rename_i top' r hm
      split at hm <;> cases hm
      cases h
      rfl
    · cases h
  · rename_i hu
    rw [if_neg hu]
    cases h
    rfl

theorem create_error {t u : ProcessTable} {name : String} {entry : Nat} {userland : Bool}
    {e : ProcessError} {p q : π} (h : t.create name entry userland p = (.error e, u, q)) :
    u = t := by
  rw [create] at h
  split at h
  · cases h
    rfl
  · split at h
    · cases h
      rfl
    · split at h
      · cases h
        rfl
      · split at h
        · cases h
          rfl
        · split at h <;> cases h
          rfl

/-- A process is added once its space has been created and its stack mapped there. Its stack in the
kernel comes from where the machine keeps these by then. -/
theorem create_stages {t u : ProcessTable} {name : String} {entry : Nat} {userland : Bool}
    {h : ProcessHandle} {p q : π} (hc : t.create name entry userland p = (.ok h, u, q)) :
    ∃ slot space top stacked n, t.freeSlot? = some slot ∧ t.nextPid < pidLimit ∧
      (createSpace p).1 = .ok space ∧
      mapStack userland space slot (createSpace p).2 = (.ok top, stacked) ∧
      h = ⟨slot, t.nextPid⟩ ∧
      u = t.added slot (t.newcomer name entry userland space (stackRegion stacked)
        (if userland then some (UserStack.top slot) else none)) ∧
      q = note n stacked := by
  rw [create] at hc
  split at hc
  · cases hc
  · rename_i slot hfree
    split at hc
    · cases hc
    · rename_i hpid
      split at hc
      · cases hc
      · rcases hs : createSpace p with ⟨e | space, r⟩
        · rw [hs] at hc
          cases hc
        · rw [hs] at hc
          dsimp only at hc
          split at hc
          · cases hc
          · rename_i top stacked hstack
            cases hc
            refine ⟨slot, space, top, stacked, _, hfree, Nat.lt_of_not_le hpid, rfl, hstack, rfl,
              ?_, rfl⟩
            rw [← mapStack_ok hstack]
            rfl

/-- Adding a process takes a free slot and a new number, creates a space, and maps a stack there. -/
theorem create_ok {t u : ProcessTable} {name : String} {entry : Nat} {userland : Bool}
    {h : ProcessHandle} {p q : π} (hc : t.create name entry userland p = (.ok h, u, q)) :
    ∃ slot space region top stacked n, t.freeSlot? = some slot ∧ t.nextPid < pidLimit ∧
      (createSpace p).1 = .ok space ∧
      mapStack userland space slot (createSpace p).2 = (.ok top, stacked) ∧
      h = ⟨slot, t.nextPid⟩ ∧
      u = t.added slot (t.newcomer name entry userland space region
        (if userland then some (UserStack.top slot) else none)) ∧
      q = note n stacked := by
  obtain ⟨slot, space, top, stacked, n, rest⟩ := create_stages hc
  exact ⟨slot, space, stackRegion stacked, top, stacked, n, rest⟩

theorem exit_ok {t u : ProcessTable} {h : ProcessHandle} (hx : t.exit h = (.ok (), u)) :
    ∃ q, t.get h = .ok q ∧ h.slot ≠ t.current ∧ h.slot ≠ kernelSlot ∧
      u = t.setSlot h.slot (some (q.settle .exited none)) := by
  rw [exit] at hx
  split at hx
  · cases hx
  · rename_i hslot
    split at hx
    · cases hx
    · rename_i q hq
      cases hx
      exact ⟨q, hq, fun e => hslot (.inl e), fun e => hslot (.inr e), rfl⟩

theorem exit_error {t u : ProcessTable} {h : ProcessHandle} {e : ProcessError}
    (hx : t.exit h = (.error e, u)) : u = t := by
  rw [exit] at hx
  split at hx
  · cases hx
    rfl
  · split at hx <;> cases hx
    rfl

/-- The image of a process has been loaded while its space was the active one. -/
theorem loadInto_stages {image : ExecutableImage} {space : AddressSpace} {userland : Bool}
    {p q : π} {info : LoadedImage} (h : loadInto image space userland p = (.ok info, q)) :
    ∃ r, image.load space userland (enter space p) = (.ok info, r) ∧
      q = if activeSpace p = space then r else activate (activeSpace p) r := by
  rw [loadInto] at h
  rcases hl : image.load space userland (enter space p) with ⟨info' | e | _, r⟩
  · rw [hl] at h
    cases h
    exact ⟨r, rfl, rfl⟩
  · rw [hl] at h
    cases h
  · rw [hl] at h
    cases h

theorem loadInto_error_stages {image : ExecutableImage} {space : AddressSpace} {userland : Bool}
    {p q : π} {e : ImageError} (h : loadInto image space userland p = (.error e, q)) :
    ∃ r, image.load space userland (enter space p) = (.error e, r) ∧
      q = if activeSpace p = space then r else activate (activeSpace p) r := by
  rw [loadInto] at h
  rcases hl : image.load space userland (enter space p) with ⟨info | e' | _, r⟩
  · rw [hl] at h
    cases h
  · rw [hl] at h
    cases h
    exact ⟨r, rfl, rfl⟩
  · rw [hl] at h
    cases h

/-- Loading an image for a process makes it ready to run. -/
theorem loadAndRun_ok {t u : ProcessTable} {h : ProcessHandle} {image : ExecutableImage}
    {info : LoadedImage} {p q : π} (hl : t.loadAndRun h image p = (.ok info, u, q)) :
    ∃ r top loaded n, t.get h = .ok r ∧ Preparable r top ∧
      loadInto image r.space r.userland p = (.ok info, loaded) ∧ u = t.readied h.slot r top ∧
      q = note n loaded := by
  rw [loadAndRun] at hl
  split at hl
  · cases hl
  · rename_i r live
    split at hl
    · cases hl
    · split at hl
      · cases hl
      · cases hl
      · rename_i info' loaded hload
        split at hl
        · cases hl
        · rename_i place v hp
          cases hl
          obtain ⟨r', top, live', can, -, rfl⟩ := prepareForRun_ok hp
          obtain rfl := Except.ok.inj (live.symm.trans live')
          exact ⟨r, top, loaded, _, live, can, hload, rfl, rfl⟩

/-- How far loading an image for a process came before it failed. -/
theorem loadAndRun_error_stages {t u : ProcessTable} {h : ProcessHandle} {image : ExecutableImage}
    {e : ProcessError} {p q : π} (hl : t.loadAndRun h image p = (.error e, u, q)) :
    (u = t ∧ q = p ∧ (e = .staleHandle ∨ e = .invalidState .running)) ∨
      ∃ r, t.get h = .ok r ∧ r.state ≠ .running ∧
        ((∃ c s n, loadInto image r.space r.userland p = (.error c, s) ∧ e = .load c ∧
            u = t.setSlot h.slot (some (r.settle .stopped none)) ∧ q = note n s) ∨
          ∃ info, loadInto image r.space r.userland p = (.ok info, q) ∧
            t.prepareForRun h = (.error e, u)) := by
  rw [loadAndRun] at hl
  split at hl
  · rename_i e' he
    cases hl
    cases get_error he
    exact .inl ⟨rfl, rfl, .inl rfl⟩
  · rename_i r live
    split at hl
    · cases hl
      exact .inl ⟨rfl, rfl, .inr rfl⟩
    · rename_i idle
      split at hl
      · cases hl
      · rename_i c s failed
        cases hl
        exact .inr ⟨r, live, idle, .inl ⟨c, s, _, failed, rfl, rfl, rfl⟩⟩
      · rename_i info s loaded
        split at hl
        · rename_i e' v refused
          cases hl
          exact .inr ⟨r, live, idle, .inr ⟨info, loaded, refused⟩⟩
        · cases hl

/-- Only a load that fails in the image stops the process. -/
theorem loadAndRun_error {t u : ProcessTable} {h : ProcessHandle} {image : ExecutableImage}
    {e : ProcessError} {p q : π} (hl : t.loadAndRun h image p = (.error e, u, q)) :
    (u = t ∧ ∀ c, e ≠ .load c) ∨
      ∃ c r, e = .load c ∧ t.get h = .ok r ∧ r.state ≠ .running ∧
        u = t.setSlot h.slot (some (r.settle .stopped none)) := by
  rcases loadAndRun_error_stages hl with ⟨rfl, -, cause⟩ |
    ⟨r, live, idle, ⟨c, s, n, -, rfl, rfl, -⟩ | ⟨info, -, refused⟩⟩
  · exact .inl ⟨rfl, fun c => by rcases cause with rfl | rfl <;> nofun⟩
  · exact .inr ⟨c, r, rfl, live, idle, rfl⟩
  · exact .inl (prepareForRun_error refused)

theorem saved_of_runnable {q : Process} (h : q.runnable = true) :
    ∃ place, q.saved = some place := by
  rw [Process.runnable] at h
  exact Option.isSome_iff_exists.mp (Bool.and_eq_true_iff.mp h).2

theorem runnable_of_next {t : ProcessTable} {slot : Nat} {next : Fin maxProcesses}
    (h : t.nextRunnableAfter slot = some next) :
    ∃ q, t.slots next = some q ∧ q.runnable = true := by
  have hr := List.find?_some h
  exact (Option.any_eq_true _ _).mp hr

end ProcessTable

namespace TableState

variable {π : Type} [Platform π]

theorem create_of_perform {s u : TableState π} {name : String} {entry : Nat} {userland : Bool}
    {answer : Except ProcessError ProcessHandle}
    (made : s.perform (.create name entry userland) = (.created answer, u)) :
    s.table.create name entry userland s.machine = (answer, u.table, u.machine) := by
  cases made
  rfl

theorem load_of_perform {s u : TableState π} {h : ProcessHandle} {image : ExecutableImage}
    {answer : Outcome ProcessError LoadedImage}
    (made : s.perform (.load h image) = (.loaded answer, u)) :
    s.table.loadAndRun h image s.machine = (answer, u.table, u.machine) := by
  cases made
  rfl

/-- What a call can do. -/
inductive Effect (s : TableState π) : Operation → Answer → TableState π → Prop where
  | createRefused {name entry userland e machine} :
      Effect s (.create name entry userland) (.created (.error e)) ⟨s.table, machine⟩
  | created {name entry userland slot space region machine}
      (free : s.table.freeSlot? = some slot) (number : s.table.nextPid < pidLimit)
      (issued : Issued π space) :
      Effect s (.create name entry userland) (.created (.ok ⟨slot, s.table.nextPid⟩))
        ⟨s.table.added slot (s.table.newcomer name entry userland space region
          (if userland then some (UserStack.top slot) else none)), machine⟩
  | prepareRefused {h e} : Effect s (.prepare h) (.prepared (.error e)) s
  | prepared {h q top} (live : s.table.get h = .ok q) (can : ProcessTable.Preparable q top) :
      Effect s (.prepare h) (.prepared (.ok (ProcessTable.initialPlace q)))
        ⟨s.table.readied h.slot q top, s.machine⟩
  | loadRefused {h image e machine} (cause : ∀ c, e ≠ .load c) :
      Effect s (.load h image) (.loaded (.error e)) ⟨s.table, machine⟩
  | loadFailed {h image c q machine} (live : s.table.get h = .ok q) (state : q.state ≠ .running) :
      Effect s (.load h image) (.loaded (.error (.load c)))
        ⟨s.table.setSlot h.slot (some (q.settle .stopped none)), machine⟩
  | loaded {h image info q top machine} (live : s.table.get h = .ok q)
      (can : ProcessTable.Preparable q top) :
      Effect s (.load h image) (.loaded (.ok info)) ⟨s.table.readied h.slot q top, machine⟩
  | exitRefused {h e} : Effect s (.exit h) (.exited (.error e)) s
  | exited {h q} (live : s.table.get h = .ok q) (away : h.slot ≠ s.table.current)
      (user : h.slot ≠ kernelSlot) :
      Effect s (.exit h) (.exited (.ok ()))
        ⟨s.table.setSlot h.slot (some (q.settle .exited none)), s.machine⟩
  | reaped {machine} :
      Effect s .reap (.reaped (s.table.reap s.machine).1) ⟨(s.table.reap s.machine).2.1, machine⟩
  /-- No other process can run. -/
  | kept {place registers}
      (alone : ∀ next, (s.table.interrupted place registers).nextRunnableAfter s.table.current =
        some next → next = s.table.current) :
      Effect s (.schedule place registers) (.resumed place)
        ⟨s.table.interrupted place registers, s.machine⟩
  /-- The running process gives way. -/
  | switched {place registers next old new resumed}
      (found : (s.table.interrupted place registers).nextRunnableAfter s.table.current = some next)
      (other : next ≠ s.table.current) (leaves : s.table.slots s.table.current = some old)
      (enters : s.table.slots next = some new) (saved : new.saved = some resumed) :
      Effect s (.schedule place registers) (.resumed resumed)
        ⟨(s.table.interrupted place registers).handOver next,
          ProcessTable.switchMachine old new s.machine⟩

theorem effect_create (s : TableState π) (name : String) (entry : Nat) (userland : Bool) :
    Effect s (.create name entry userland) (s.perform (.create name entry userland)).1
      (s.perform (.create name entry userland)).2 := by
  dsimp only [perform]
  rcases hc : s.table.create name entry userland s.machine with ⟨e | h, u, q⟩
  · cases ProcessTable.create_error hc
    exact .createRefused
  · obtain ⟨slot, space, region, -, -, -, free, number, made, -, rfl, rfl, -⟩ :=
      ProcessTable.create_ok hc
    exact .created free number ⟨s.machine, .inr made⟩

theorem effect_prepare (s : TableState π) (h : ProcessHandle) :
    Effect s (.prepare h) (s.perform (.prepare h)).1 (s.perform (.prepare h)).2 := by
  dsimp only [perform]
  rcases hp : s.table.prepareForRun h with ⟨e | place, u⟩
  · cases (ProcessTable.prepareForRun_error hp).1
    exact .prepareRefused
  · obtain ⟨q, top, live, can, rfl, rfl⟩ := ProcessTable.prepareForRun_ok hp
    exact .prepared live can

theorem effect_load (s : TableState π) (h : ProcessHandle) (image : ExecutableImage)
    (hn : (s.perform (.load h image)).1 ≠ .loaded .aborted) :
    Effect s (.load h image) (s.perform (.load h image)).1 (s.perform (.load h image)).2 := by
  dsimp only [perform] at hn ⊢
  rcases hl : s.table.loadAndRun h image s.machine with ⟨info | e | _, u, q⟩
  · obtain ⟨r, top, -, -, live, can, -, rfl, -⟩ := ProcessTable.loadAndRun_ok hl
    exact .loaded live can
  · rcases ProcessTable.loadAndRun_error hl with ⟨rfl, cause⟩ | ⟨c, r, rfl, live, state, rfl⟩
    · exact .loadRefused cause
    · exact .loadFailed live state
  · rw [hl] at hn
    exact absurd rfl hn

theorem effect_exit (s : TableState π) (h : ProcessHandle) :
    Effect s (.exit h) (s.perform (.exit h)).1 (s.perform (.exit h)).2 := by
  dsimp only [perform]
  rcases hx : s.table.exit h with ⟨e | _, u⟩
  · cases ProcessTable.exit_error hx
    exact .exitRefused
  · obtain ⟨q, live, away, user, rfl⟩ := ProcessTable.exit_ok hx
    exact .exited live away user

theorem effect_schedule (s : TableState π) (place : FramePlace) (registers : Trapframe)
    (current : ∃ q, s.table.slots s.table.current = some q) :
    Effect s (.schedule place registers) (s.perform (.schedule place registers)).1
      (s.perform (.schedule place registers)).2 := by
  obtain ⟨old, hold⟩ := current
  have hslot := s.table.slots_interrupted place registers
  have hcur := hslot s.table.current
  rw [if_pos rfl, hold] at hcur
  rcases hs : (s.table.setFrame place registers).schedule place s.machine with ⟨resumed, u, m⟩
  dsimp only [perform]
  rw [hs]
  have saved : (s.table.setFrame place registers).saveCurrent place =
    s.table.interrupted place registers := rfl
  have still : (s.table.interrupted place registers).current = s.table.current := rfl
  rw [ProcessTable.schedule, saved, still] at hs
  split at hs
  · rename_i hn
    cases hs
    refine .kept fun next h => ?_
    rw [hn] at h
    cases h
  · rename_i next hn
    split at hs
    · rename_i hnext
      cases hs
      refine .kept fun other h => ?_
      rw [hn] at h
      cases h
      exact hnext
    · rename_i hnext
      obtain ⟨new, hnew, hrun⟩ := ProcessTable.runnable_of_next hn
      obtain ⟨resumed', hsaved⟩ := ProcessTable.saved_of_runnable hrun
      have henters := hslot next
      rw [if_neg hnext, hnew] at henters
      rw [hcur, hnew] at hs
      dsimp only [Option.map_some] at hs
      rw [hsaved] at hs
      cases hs
      -- Saving the frame changes neither the space nor the number of the process that leaves.
      change Effect s _ _ ⟨_, ProcessTable.switchMachine old new s.machine⟩
      exact .switched hn hnext hold henters.symm hsaved

/-- Every answered call has one of the effects. -/
theorem effect_of_step {s u : TableState π} {op : Operation} {a : Answer}
    (current : ∃ q, s.table.slots s.table.current = some q) (step : Step s op a u) :
    Effect s op a u := by
  obtain ⟨hp, hn⟩ := step
  have ha : a = (s.perform op).1 := congrArg Prod.fst hp.symm
  have hu : u = (s.perform op).2 := congrArg Prod.snd hp.symm
  subst hu
  cases op with
  | create name entry userland => exact ha ▸ effect_create s name entry userland
  | prepare h => exact ha ▸ effect_prepare s h
  | load h image => exact ha ▸ effect_load s h image (ha ▸ hn)
  | exit h => exact ha ▸ effect_exit s h
  | reap => exact ha ▸ .reaped
  | schedule place registers => exact ha ▸ effect_schedule s place registers current

end TableState
end KernelCore
