import KernelCore.ExecutableImage
import KernelCore.KernelStack
import KernelCore.PrintableText
import KernelCore.ProcessName

/-!
# Processes

A process of the table: its number, name, state, ring and address space, the stacks it owns and the
place of the frame that it goes on from. A slot without a process is `none` in the table, so every
process has one of five states.
-/
namespace KernelCore

inductive ProcessState where
  | ready
  | running
  | stopped
  | waiting
  | exited
  deriving DecidableEq, Repr

namespace ProcessState

/-- All states of a slot, a free one first. -/
def ofSlots : List (Option ProcessState) :=
  [none, some .ready, some .running, some .stopped, some .waiting, some .exited]

def name : ProcessState → String
  | .ready => "ready"
  | .running => "running"
  | .stopped => "stopped"
  | .waiting => "waiting"
  | .exited => "exited"

def label : ProcessState → String
  | .ready => "Ready"
  | .running => "Running"
  | .stopped => "Stopped"
  | .waiting => "Waiting"
  | .exited => "Exited"

def slotName : Option ProcessState → String
  | none => "unused"
  | some s => s.name

end ProcessState

/-- Why an operation on the process table failed. -/
inductive ProcessError where
  | tableFull
  | outOfMemory
  | staleHandle
  | invalidState (state : ProcessState)
  | load (cause : ImageError)
  | map (cause : MapError)
  deriving DecidableEq, Repr

def ProcessError.label : ProcessError → String
  | .tableFull => "TableFull"
  | .outOfMemory => "OutOfMemory"
  | .staleHandle => "StaleHandle"
  | .invalidState state => "InvalidState(" ++ state.label ++ ")"
  | .load cause => "Load(" ++ cause.label ++ ")"
  | .map cause => "Map(" ++ cause.label ++ ")"

def ProcessError.message : ProcessError → String
  | .tableFull => "process table full"
  | .outOfMemory => "out of memory for process stack"
  | .staleHandle => "stale process handle"
  | .invalidState state => "process is " ++ state.name
  | .load cause => "load failed: " ++ cause.message
  | .map cause => "stack mapping failed: " ++ cause.message

/-- Where a trap frame lies: outside the stacks of the processes, or on the kernel stack of the
process `owner`, `depth` bytes below its top. -/
inductive FramePlace where
  | outside (id : Nat)
  | onStack (owner depth : Nat)
  deriving DecidableEq, Repr

structure Process where
  pid : Nat
  name : ProcessName
  state : ProcessState
  entry : Nat
  userland : Bool
  space : AddressSpace
  kernelStack : Option KernelStack
  userStackTop : Option Nat
  /-- Where the registers were saved when the process ran last. -/
  saved : Option FramePlace
  deriving DecidableEq

namespace Process

/-- The stack pointer that the process starts with. -/
def stackTop (p : Process) : Option Nat :=
  if p.userland then p.userStackTop else p.kernelStack.map KernelStack.top

/-- The top of the stack on which traps of the process arrive. -/
def trapStackTop (p : Process) : Option Nat := p.kernelStack.map KernelStack.top

/-- The process may be the next one to run. -/
def runnable (p : Process) : Bool :=
  (p.state == .ready || p.state == .running) && p.saved.isSome

def text (p : Process) : String :=
  "Process \x7b pid: " ++ toString p.pid ++ ", name: " ++ PrintableText.quote p.name.text ++
    ", state: " ++ p.state.label ++ ", entry: VirtAddr(" ++ hex p.entry ++ "), userland: " ++
    toString p.userland ++ ", space: AddressSpace \x7b root: PhysAddr(" ++ hex p.space.root ++
    ") \x7d \x7d"

end Process
end KernelCore
