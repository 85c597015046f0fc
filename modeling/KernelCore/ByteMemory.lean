import KernelCore.Address

/-!
# Byte memory

Memory as seen by a program: one byte at every address. Storing replaces the bytes of one range and
leaves all others, which `byte_store` says in full.
-/
namespace KernelCore

/-- The byte at every address. -/
structure ByteMemory where
  byte : Nat → UInt8

namespace ByteMemory

def filled (value : UInt8) : ByteMemory := ⟨fun _ => value⟩

/-- Replaces the `length` bytes from address `a` on; `content` gives them by their distance
from `a`. -/
def store (m : ByteMemory) (a length : Nat) (content : Nat → UInt8) : ByteMemory :=
  ⟨fun b => if a ≤ b ∧ b - a < length then content (b - a) else m.byte b⟩

def write (m : ByteMemory) (a : Nat) (bytes : Array UInt8) : ByteMemory :=
  m.store a bytes.size fun i => bytes.getD i 0

def fill (m : ByteMemory) (a length : Nat) (value : UInt8) : ByteMemory :=
  m.store a length fun _ => value

/-- The `length` bytes from address `a` on. -/
def read (m : ByteMemory) (a length : Nat) : List UInt8 :=
  (List.range length).map fun i => m.byte (a + i)

/-- The bytes from `a` on, at most `limit` of them, up to the first zero, which is left out. -/
def readUntilZero (m : ByteMemory) : (a limit : Nat) → List UInt8
  | _, 0 => []
  | a, limit + 1 => if m.byte a = 0 then [] else m.byte a :: m.readUntilZero (a + 1) limit

theorem byte_store (m : ByteMemory) (a length : Nat) (content : Nat → UInt8) (b : Nat) :
    (m.store a length content).byte b =
      if a ≤ b ∧ b - a < length then content (b - a) else m.byte b := rfl

@[simp] theorem store_zero (m : ByteMemory) (a : Nat) (content : Nat → UInt8) :
    m.store a 0 content = m := by
  simp [store]

@[simp] theorem length_read (m : ByteMemory) (a length : Nat) :
    (m.read a length).length = length := by
  simp [read]

theorem read_write_self (m : ByteMemory) (a : Nat) (bytes : Array UInt8) :
    (m.write a bytes).read a bytes.size = bytes.toList := by
  apply List.ext_getElem
  · simp
  · intro i h _
    simp only [length_read] at h
    simp [read, write, byte_store, h]

end ByteMemory
end KernelCore
