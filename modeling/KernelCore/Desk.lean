import KernelCore.InterruptLines
import KernelCore.SyscallTable

/-!
# The desk

Services for a kernel without devices. Console input and window events wait in queues that are
filled beforehand, and the desk keeps a list of everything it was asked, the first request first.
-/
namespace KernelCore

/-- What a desk was asked. -/
inductive Request where
  | writeConsole (bytes : List UInt8)
  | openWindow (rect : Rect) (title : String)
  | drawText (window : UInt64) (x y : Int32) (text : String) (color : UInt32)
  | fillRect (window : UInt64) (rect : Rect) (color : UInt32)
  | pollEvent (window : UInt64)
  | execute (line : String)
  /-- A line handler ran on a frame with this vector and instruction pointer. -/
  | interrupt (vector rip : UInt64)
  /-- A system call handler ran on this call. -/
  | syscall (context : SyscallContext)
  | note (notice : Notice)
  deriving DecidableEq

structure Desk where
  input : List UInt8 := []
  events : List WindowEvent := []
  /-- No window is opened any more. -/
  refuse : Bool := false
  /-- The handle of the first window; the others follow. -/
  windowBase : UInt64 := 1
  opened : Nat := 0
  ticks : Nat := 0
  requests : List Request := []

namespace Desk

def record (d : Desk) (r : Request) : Desk := { d with requests := d.requests ++ [r] }

def cleared (d : Desk) : Desk := { d with requests := [] }

def isOpen (d : Desk) (window : UInt64) : Bool :=
  d.windowBase.toNat ≤ window.toNat && window.toNat < d.windowBase.toNat + d.opened

def takeInput (d : Desk) : Option UInt8 × Desk :=
  match d.input with
  | [] => (none, d)
  | b :: input => (some b, { d with input })

def takeEvent (d : Desk) : EventPoll × Desk :=
  match d.events with
  | [] => (.empty, d)
  | e :: events => (.event e, { d with events })

instance : Services Desk where
  note n d := d.record (.note n)
  writeConsole bytes d := d.record (.writeConsole bytes)
  readChar := takeInput
  openWindow rect title d :=
    let d := d.record (.openWindow rect title)
    if d.refuse then (none, d)
    else (some (d.windowBase + UInt64.ofNat d.opened), { d with opened := d.opened + 1 })
  drawText window x y text color d :=
    (d.isOpen window, d.record (.drawText window x y text color))
  fillRect window rect color d := (d.isOpen window, d.record (.fillRect window rect color))
  pollEvent window d :=
    let d := d.record (.pollEvent window)
    if d.isOpen window then d.takeEvent else (.noSuchWindow, d)
  execute line d := d.record (.execute line)

instance : Clock Desk where
  tick d := { d with ticks := d.ticks + 1 }

/-- Handlers that show which line ran, and on what. -/
def lineHandlers : List (String × LineHandler Desk) :=
  [("mark", fun f d => ({ f with r15 := 0xfeed }, d)),
    ("bump", fun f d => ({ f with r14 := f.r14 + 1 }, d)),
    ("revector", fun f d => ({ f with vector := 0x80 }, d)),
    ("record", fun f d => (f, d.record (.interrupt f.vector f.rip))),
    ("tick", InterruptLines.onTick)]

def addHandler : SyscallHandler Desk := fun c env => (.ok (c.arg0 + c.arg1), env)

/-- Answers with the largest word. -/
def maxHandler : SyscallHandler Desk := fun _ env => (.ok 0xffffffffffffffff, env)

/-- Keeps the call, and answers with a byte of input, or zero if there is none. -/
def recordHandler : SyscallHandler Desk := fun c env =>
  let (b, services) := (env.services.record (.syscall c)).takeInput
  (.ok (b.getD 0).toUInt64, { env with services })

def failHandler (e : SyscallError) : SyscallHandler Desk := fun _ env => (.error e, env)

/-- Handlers that show which call was made and how its result is passed back. -/
def syscallHandlers : List (String × SyscallHandler Desk) :=
  [("add", addHandler), ("max", maxHandler), ("record", recordHandler)] ++
    SyscallError.all.map fun e => (e.label, failHandler e)

end Desk
end KernelCore
