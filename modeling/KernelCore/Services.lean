import KernelCore.ByteMemory
import KernelCore.LittleEndian
import KernelCore.Notice

/-!
# Services

What the handlers of system calls ask of the console, the window service and the shell. As with the
platform, every operation takes the state of the services and answers with the state after it.
-/
namespace KernelCore

structure Rect where
  x : Int32
  y : Int32
  width : Int32
  height : Int32
  deriving DecidableEq

structure WindowEvent where
  kind : UInt32
  key : Int32 := 0
  mouseX : Int32 := 0
  mouseY : Int32 := 0
  mouseButtons : Int32 := 0
  deriving DecidableEq

namespace WindowEvent

/-- The kinds of events by number: none, key, mouse move, mouse button and quit. -/
def kinds : List UInt32 := [0, 1, 2, 3, 4]

def quit : WindowEvent := { kind := 4 }

def ofKey (key : Int32) : WindowEvent := { kind := 1, key }

/-- Number of bytes of an event in a program's memory. -/
def size : Nat := 20

def bytes (e : WindowEvent) : List UInt8 :=
  LittleEndian.toBytes 4 e.kind.toNat ++ LittleEndian.toBytes 4 e.key.toUInt32.toNat ++
    LittleEndian.toBytes 4 e.mouseX.toUInt32.toNat ++
    LittleEndian.toBytes 4 e.mouseY.toUInt32.toNat ++
    LittleEndian.toBytes 4 e.mouseButtons.toUInt32.toNat

@[simp] theorem length_bytes (e : WindowEvent) : e.bytes.length = size := by simp [bytes, size]

end WindowEvent

/-- The answer to a program that asks for the next event of a window. -/
inductive EventPoll where
  | event (e : WindowEvent)
  | empty
  | noSuchWindow
  deriving DecidableEq

/-- The console, the window service and the shell. -/
class Services (δ : Type) extends Journal δ where
  writeConsole : List UInt8 → δ → δ
  /-- The next byte of input, without waiting for one. -/
  readChar : δ → Option UInt8 × δ
  /-- Opens a window. The answer is its handle, unless the service refuses. -/
  openWindow : Rect → (title : String) → δ → Option UInt64 × δ
  /-- The answer is whether there is such a window. -/
  drawText : (window : UInt64) → (x y : Int32) → String → (color : UInt32) → δ → Bool × δ
  /-- The answer is whether there is such a window. -/
  fillRect : (window : UInt64) → Rect → (color : UInt32) → δ → Bool × δ
  pollEvent : (window : UInt64) → δ → EventPoll × δ
  execute : (line : String) → δ → δ

/-- Services that count the ticks of the timer. -/
class Clock (δ : Type) where
  tick : δ → δ

/-- What a system call works on: the caller's memory and the services. -/
structure Env (δ : Type) where
  memory : ByteMemory
  services : δ

end KernelCore
