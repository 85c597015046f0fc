import KernelCore.Services
import KernelCore.Trapframe
import KernelCore.TrapVector

/-!
# Interrupt lines

The handler of every device line. A line without one is ignored, which is normal for most of the
sixteen.
-/
namespace KernelCore

/-- The work of one interrupt. It may change the frame of the interrupted program. -/
abbrev LineHandler (δ : Type) := Trapframe → δ → Trapframe × δ

/-- There is no line with this number. -/
inductive LineError where
  | invalidLine (line : Nat)
  deriving DecidableEq, Repr

def LineError.label : LineError → String
  | .invalidLine line => "InvalidLine(" ++ toString line ++ ")"

def LineError.message : LineError → String
  | .invalidLine line => "no such IRQ line: " ++ toString line

structure InterruptLines (δ : Type) where
  handlers : Fin lineCount → Option (LineHandler δ)

namespace InterruptLines

variable {δ : Type}

def empty : InterruptLines δ := ⟨fun _ => none⟩

def handler? (t : InterruptLines δ) (line : Nat) : Option (LineHandler δ) :=
  if h : line < lineCount then t.handlers ⟨line, h⟩ else none

def isRegistered (t : InterruptLines δ) (line : Nat) : Bool := (t.handler? line).isSome

def register [Journal δ] (t : InterruptLines δ) (line : Nat) (handler : LineHandler δ)
    (services : δ) : Except LineError Unit × InterruptLines δ × δ :=
  if h : line < lineCount then
    (.ok (), ⟨fun n => if n = ⟨line, h⟩ then some handler else t.handlers n⟩,
      Journal.note (.debug ("irq: handler attached to line " ++ toString line)) services)
  else (.error (.invalidLine line), t, services)

/-- Runs the handler of a line. Answers whether there was one. -/
def invoke (t : InterruptLines δ) (line : Nat) (f : Trapframe) (services : δ) :
    Bool × Trapframe × δ :=
  match t.handler? line with
  | some handler =>
    let (f, services) := handler f services
    (true, f, services)
  | none => (false, f, services)

/-- The handler of the timer line counts. Which process goes on is not its business. -/
def onTick [Clock δ] : LineHandler δ := fun f services => (f, Clock.tick services)

end InterruptLines
end KernelCore
