import KernelCore.FatalTrap
import KernelCore.InterruptLines
import KernelCore.RoundRobin
import KernelCore.SyscallHandlers

/-!
# The kernel

All state of the kernel in one value, and `dispatch`, which receives every trap. A trap ends with
the frame to resume, which after a tick of the timer may be that of another process, or with a
stopped processor.
-/
namespace KernelCore

/-- The state of the kernel over a machine `π` and services `δ`. -/
structure Kernel (π δ : Type) where
  platform : π
  services : δ
  lines : InterruptLines δ
  syscalls : SyscallTable δ
  processes : ProcessTable
  fatal : FatalGuard

/-- How the handling of a trap ends. -/
inductive Resumption where
  | resume (place : FramePlace)
  | halted
  deriving DecidableEq, Repr

namespace Kernel

variable {π δ : Type} [Platform π]

def new (platform : π) (services : δ) : Kernel π δ where
  platform := platform
  services := services
  lines := .empty
  syscalls := .empty
  processes := .new (activeSpace platform)
  fatal := {}

def createProcess (k : Kernel π δ) (name : String) (entry : Nat) (userland : Bool) :
    Except ProcessError ProcessHandle × Kernel π δ :=
  let (result, processes, platform) := k.processes.create name entry userland k.platform
  (result, { k with processes, platform })

/-- Makes a process ready whose code is mapped already. -/
def prepareProcess (k : Kernel π δ) (h : ProcessHandle) : Except ProcessError Unit × Kernel π δ :=
  match k.processes.prepareForRun h with
  | (.ok _, processes) => (.ok (), { k with processes })
  | (.error e, processes) => (.error e, { k with processes })

def loadProcess (k : Kernel π δ) (h : ProcessHandle) (image : ExecutableImage) :
    Outcome ProcessError LoadedImage × Kernel π δ :=
  let (result, processes, platform) := k.processes.loadAndRun h image k.platform
  (result, { k with processes, platform })

/-- Starts a program: adds a process of ring 3 that starts at the entry point of the image, and
loads the image for it. -/
def spawnImage (k : Kernel π δ) (name : String) (image : ExecutableImage) :
    Outcome ProcessError ProcessHandle × Kernel π δ :=
  match image.entryPoint with
  | .error e => (.error (.load e), k)
  | .ok entry =>
    match k.createProcess name entry true with
    | (.error e, k) => (.error e, k)
    | (.ok h, k) =>
      match k.loadProcess h image with
      | (.ok _, k) => (.ok h, k)
      | (.error e, k) => (.error e, k)
      | (.aborted, k) => (.aborted, k)

def registerLine [Journal δ] (k : Kernel π δ) (line : Nat) (handler : LineHandler δ) :
    Except LineError Unit × Kernel π δ :=
  let (result, lines, services) := k.lines.register line handler k.services
  (result, { k with lines, services })

def registerSyscall (k : Kernel π δ) (number : Nat) (handler : SyscallHandler δ) :
    Except SyscallError Unit × Kernel π δ :=
  let (result, syscalls) := k.syscalls.register number handler
  (result, { k with syscalls })

def registerDefaults [Services δ] (k : Kernel π δ) : Except SyscallError Unit × Kernel π δ :=
  let (result, syscalls, services) := Handlers.registerAll k.syscalls k.services
  (result, { k with syscalls, services })

variable [Services δ]

/-- An interrupt of a device line: runs its handler and acknowledges the interrupt. A tick of the
timer then passes the processor on. -/
def interrupt (k : Kernel π δ) (line : Nat) (place : FramePlace) : Resumption × Kernel π δ :=
  let (_, frame, services) := k.lines.invoke line (k.processes.frames place) k.services
  let processes := k.processes.setFrame place frame
  let platform := endOfInterrupt line k.platform
  if line = timerLine then
    let (resumed, processes, platform) := processes.schedule place platform
    (.resume resumed, { k with services, processes, platform })
  else (.resume place, { k with services, processes, platform })

/-- A system call of the program whose frame lies at `place`. -/
def serve (k : Kernel π δ) (place : FramePlace) : Kernel π δ :=
  let (frame, env) :=
    k.syscalls.handle (k.processes.frames place) ⟨memory k.platform, k.services⟩
  { k with
    services := env.services
    platform := setMemory env.memory k.platform
    processes := k.processes.setFrame place frame }

/-- Receives a trap whose frame lies at `place`. -/
def dispatch (k : Kernel π δ) (place : FramePlace) : Resumption × Kernel π δ :=
  let frame := k.processes.frames place
  match TrapKind.classify frame.vector.toNat with
  | .exception _ =>
    let (fatal, platform) := k.fatal.trap frame k.platform
    (.halted, { k with fatal, platform })
  | .line line => k.interrupt line place
  | .syscall => (.resume place, k.serve place)
  | .unexpected vector =>
    (.resume place, { k with
      platform := note (.debug ("trap: ignoring vector " ++ hex vector)) k.platform })

end Kernel
end KernelCore
