import KernelCore.ImageLoader
import KernelCore.Process
import KernelCore.SegmentSelector
import KernelCore.UserStack

/-!
# The process table

The slots of the processes, which of them is running, and the registers saved at every place. A
process is reached by a handle, which names its slot and its number; numbers are never given twice,
so the handle of a process that is gone reaches nothing. Every operation answers with the table and
the machine after it.
-/
namespace KernelCore

def maxProcesses : Nat := 32

def kernelSlot : Fin maxProcesses := ⟨0, by decide⟩

/-- The largest process number is the one before this. -/
def pidLimit : Nat := 0xffffffff

/-- Names a process by its slot and its number. -/
structure ProcessHandle where
  slot : Fin maxProcesses
  pid : Nat
  deriving DecidableEq, Repr

structure ProcessTable where
  /-- What every slot holds. -/
  content : Vector (Option Process) maxProcesses
  current : Fin maxProcesses
  nextPid : Nat
  /-- The registers that a frame holds. -/
  frames : FramePlace → Trapframe

namespace ProcessTable

/-- The kernel's own process, which runs in `space` from the start. -/
def kernelProcess (space : AddressSpace) : Process where
  pid := 1
  name := .ofString "kernel"
  state := .running
  entry := 0
  userland := false
  space := space
  kernelStack := none
  userStackTop := none
  saved := none

def slots (t : ProcessTable) (slot : Fin maxProcesses) : Option Process := t.content[slot]

/-- The table with the kernel's own process only. -/
def new (space : AddressSpace) : ProcessTable where
  content := .ofFn fun s => if s = kernelSlot then some (kernelProcess space) else none
  current := kernelSlot
  nextPid := 2
  frames := fun _ => {}

def setSlot (t : ProcessTable) (slot : Fin maxProcesses) (p : Option Process) : ProcessTable :=
  { t with content := t.content.set slot p slot.isLt }

def setFrame (t : ProcessTable) (place : FramePlace) (f : Trapframe) : ProcessTable :=
  { t with frames := fun q => if q = place then f else t.frames q }

theorem slots_new (space : AddressSpace) (s : Fin maxProcesses) :
    (new space).slots s = if s = kernelSlot then some (kernelProcess space) else none :=
  Vector.getElem_ofFn s.isLt

@[simp] theorem slots_setSlot_self (t : ProcessTable) (slot : Fin maxProcesses)
    (p : Option Process) : (t.setSlot slot p).slots slot = p :=
  Vector.getElem_set_self slot.isLt

theorem slots_setSlot_other (t : ProcessTable) {slot s : Fin maxProcesses} (p : Option Process)
    (h : s ≠ slot) : (t.setSlot slot p).slots s = t.slots s :=
  Vector.getElem_set_ne slot.isLt s.isLt fun e => h (Fin.ext e.symm)

@[simp] theorem frames_setFrame_self (t : ProcessTable) (place : FramePlace) (f : Trapframe) :
    (t.setFrame place f).frames place = f := by simp [setFrame]

theorem frames_setFrame_other (t : ProcessTable) {place q : FramePlace} (f : Trapframe)
    (h : q ≠ place) : (t.setFrame place f).frames q = t.frames q := by simp [setFrame, h]

def stateOf (t : ProcessTable) (slot : Fin maxProcesses) : Option ProcessState :=
  (t.slots slot).map Process.state

/-- The number of the process in a slot, zero if there is none. -/
def pidOf (t : ProcessTable) (slot : Fin maxProcesses) : Nat :=
  ((t.slots slot).map Process.pid).getD 0

def currentHandle (t : ProcessTable) : ProcessHandle := ⟨t.current, t.pidOf t.current⟩

def get (t : ProcessTable) (h : ProcessHandle) : Except ProcessError Process :=
  match t.slots h.slot with
  | some p => if p.pid = h.pid then .ok p else .error .staleHandle
  | none => .error .staleHandle

/-- The processes of the table with their slots, in slot order. -/
def processes (t : ProcessTable) : List (Fin maxProcesses × Process) :=
  (List.finRange maxProcesses).filterMap fun s => (t.slots s).map fun p => (s, p)

def countIn (t : ProcessTable) (state : Option ProcessState) : Nat :=
  (List.finRange maxProcesses).countP fun s => t.stateOf s = state

def freeSlot? (t : ProcessTable) : Option (Fin maxProcesses) :=
  (List.finRange maxProcesses).find? fun s => (t.slots s).isNone

/-- A process could leave its slot: it has exited and is not the running one. -/
def reapable (t : ProcessTable) (slot : Fin maxProcesses) : Bool :=
  slot ≠ t.current && t.stateOf slot == some .exited

variable {π : Type} [Platform π]

/-- The stack pointer that a new process of this ring starts with, if it has a stack of its own in
its space, which is then mapped. -/
def mapStack (userland : Bool) (space : AddressSpace) (slot : Fin maxProcesses) (p : π) :
    Except MapError (Option Nat) × π :=
  if userland then
    match UserStack.map space slot p with
    | (.ok top, p) => (.ok (some top), p)
    | (.error e, p) => (.error e, p)
  else (.ok none, p)

/-- Adds a process, in the first free slot. What was taken for it is given back if it cannot be
added. -/
def create (t : ProcessTable) (name : String) (entry : Nat) (userland : Bool) (p : π) :
    Except ProcessError ProcessHandle × ProcessTable × π :=
  match t.freeSlot? with
  | none => (.error .tableFull, t, p)
  | some slot =>
    if pidLimit ≤ t.nextPid then (.error .tableFull, t, p)
    else if hasStackRoom p = false then (.error .outOfMemory, t, p)
    else
      match createSpace p with
      | (.error e, p) => (.error (.map e), t, p)
      | (.ok space, p) =>
        match mapStack userland space slot p with
        | (.error e, p) => (.error (.map e), t, giveBackSpace space p)
        | (.ok userStackTop, p) =>
          let process : Process :=
            { pid := t.nextPid, name := .ofString name, state := .ready, entry, userland, space,
              kernelStack := some (.forProcess (stackRegion p) t.nextPid), userStackTop
              saved := none }
          (.ok ⟨slot, t.nextPid⟩, { t.setSlot slot (some process) with nextPid := t.nextPid + 1 },
            note (.info ("process: created pid " ++ toString process.pid ++ " '" ++
              process.name.text ++ "' in slot " ++ toString slot.val ++ " (entry " ++ hex entry ++
              ", ring " ++ (if userland then "3" else "0") ++ ")")) p)

/-- The frame that a process starts from. -/
def initialFrame (q : Process) (stackTop : Nat) : Trapframe where
  rip := UInt64.ofNat q.entry
  cs := (SegmentSelector.code q.userland).toUInt64
  ds := (SegmentSelector.data q.userland).toUInt64
  ss := (SegmentSelector.data q.userland).toUInt64
  rflags := interruptsEnabled
  rsp := UInt64.ofNat (if q.userland then stackTop else stackTop - 8)

/-- The place of the frame that a process starts from. -/
def initialPlace (q : Process) : FramePlace := .onStack q.pid Trapframe.size

/-- Makes a process ready to start from its entry point. Answers with the place of its frame. -/
def prepareForRun (t : ProcessTable) (h : ProcessHandle) :
    Except ProcessError FramePlace × ProcessTable :=
  match t.get h with
  | .error e => (.error e, t)
  | .ok q =>
    if q.state = .running ∨ q.state = .exited then (.error (.invalidState q.state), t)
    else
      match q.kernelStack, q.stackTop with
      | some _, some top =>
        (.ok (initialPlace q),
          (t.setFrame (initialPlace q) (initialFrame q top)).setSlot h.slot
            (some { q with saved := some (initialPlace q), state := .ready }))
      | _, _ => (.error .outOfMemory, t)

/-- Makes a space the active one, if it is not that already. -/
def enter (space : AddressSpace) (p : π) : π :=
  if activeSpace p = space then p else activate space p

/-- Loads an image in the space of a process. The active space is the same before and after, unless
the load is aborted. -/
def loadInto (image : ExecutableImage) (space : AddressSpace) (userland : Bool) (p : π) :
    Outcome ImageError LoadedImage × π :=
  let previous := activeSpace p
  match image.load space userland (enter space p) with
  | (.aborted, p) => (.aborted, p)
  | (result, p) => (result, if previous = space then p else activate previous p)

/-- Loads an image for a process and makes it ready to run. A process whose image cannot be loaded
is stopped. -/
def loadAndRun (t : ProcessTable) (h : ProcessHandle) (image : ExecutableImage) (p : π) :
    Outcome ProcessError LoadedImage × ProcessTable × π :=
  match t.get h with
  | .error e => (.error e, t, p)
  | .ok q =>
    if q.state = .running then (.error (.invalidState .running), t, p)
    else
      match loadInto image q.space q.userland p with
      | (.aborted, p) => (.aborted, t, p)
      | (.error e, p) =>
        (.error (.load e), t.setSlot h.slot (some { q with state := .stopped, saved := none }),
          note (.warn ("process: pid " ++ toString h.pid ++ " failed to load: " ++ e.message)) p)
      | (.ok loaded, p) =>
        match t.prepareForRun h with
        | (.error e, t) => (.error e, t, p)
        | (.ok _, t) =>
          (.ok loaded, t,
            note (.info ("process: pid " ++ toString h.pid ++ " loaded, " ++
              toString loaded.segments ++ " segments, " ++ toString loaded.pagesMapped ++
              " pages")) p)

/-- Ends a process. Neither the running process nor the kernel's own can be ended. -/
def exit (t : ProcessTable) (h : ProcessHandle) : Except ProcessError Unit × ProcessTable :=
  if h.slot = t.current ∨ h.slot = kernelSlot then (.error (.invalidState .running), t)
  else
    match t.get h with
    | .error e => (.error e, t)
    | .ok q => (.ok (), t.setSlot h.slot (some { q with state := .exited, saved := none }))

/-- Frees the slots of all processes that have ended. Answers with their number. -/
def reap (t : ProcessTable) (p : π) : Nat × ProcessTable × π :=
  let reaped := (List.finRange maxProcesses).filter t.reapable
  (reaped.length, { t with content := .ofFn fun s => if t.reapable s then none else t.slots s },
    reaped.foldl (fun p s =>
      note (.debug ("process: reaped pid " ++ toString (t.pidOf s) ++ " from slot " ++
        toString s.val)) p) p)

theorem slots_reap (t : ProcessTable) (p : π) (s : Fin maxProcesses) :
    (t.reap p).2.1.slots s = if t.reapable s then none else t.slots s :=
  Vector.getElem_ofFn s.isLt

end ProcessTable
end KernelCore
