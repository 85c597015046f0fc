/-!
# Process names

A name is kept in 32 bytes, padded with zeros. A text that is too long is cut at the last boundary
between two characters that leaves at most 31 bytes.
-/
namespace KernelCore

/-- The bytes of a name, and how many of them count. -/
structure ProcessName where
  bytes : Vector UInt8 32
  length : Nat
  deriving DecidableEq

namespace ProcessName

def maxLength : Nat := 31

/-- A byte that continues a character of several bytes. -/
def continues (b : UInt8) : Bool := b &&& 0xc0 == 0x80

/-- The text may be cut before byte `i`. -/
def isBoundary (text : List UInt8) (i : Nat) : Bool :=
  i == 0 || match text[i]? with
    | none => i == text.length
    | some b => !continues b

/-- The last boundary that is not past `i`. -/
def boundaryBefore (text : List UInt8) : Nat → Nat
  | 0 => 0
  | i + 1 => if isBoundary text (i + 1) then i + 1 else boundaryBefore text i

/-- The bytes of a text that fit into a name. -/
def fitting (text : List UInt8) : List UInt8 :=
  text.take (boundaryBefore text (min text.length maxLength))

def ofString (text : String) : ProcessName :=
  let kept := fitting text.toUTF8.toList
  ⟨Vector.ofFn fun i => kept.getD i 0, kept.length⟩

def text (n : ProcessName) : String :=
  (String.fromUTF8? (n.bytes.toList.take n.length).toByteArray).getD "?"

theorem boundaryBefore_le (text : List UInt8) (i : Nat) : boundaryBefore text i ≤ i := by
  induction i with
  | zero => exact Nat.le_refl 0
  | succ i ih => unfold boundaryBefore; split <;> omega

theorem isBoundary_boundaryBefore (text : List UInt8) (i : Nat) :
    isBoundary text (boundaryBefore text i) = true := by
  induction i with
  | zero => rfl
  | succ i ih =>
    unfold boundaryBefore
    split
    · assumption
    · exact ih

theorem length_fitting_le (text : List UInt8) : (fitting text).length ≤ maxLength := by
  have := boundaryBefore_le text (min text.length maxLength)
  simp only [fitting, List.length_take]
  omega

end ProcessName
end KernelCore
