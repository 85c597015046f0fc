/-!
# Little-endian numbers

Numbers as runs of bytes, least significant byte first.
-/
namespace KernelCore.LittleEndian

/-- The lowest `count` bytes of `n`. -/
def toBytes : (count n : Nat) → List UInt8
  | 0, _ => []
  | count + 1, n => UInt8.ofNat n :: toBytes count (n / 256)

/-- The number that a run of bytes spells. -/
def ofBytes : List UInt8 → Nat
  | [] => 0
  | b :: rest => b.toNat + 256 * ofBytes rest

@[simp] theorem length_toBytes (count n : Nat) : (toBytes count n).length = count := by
  induction count generalizing n with
  | zero => rfl
  | succ count ih => simp [toBytes, ih]

end KernelCore.LittleEndian
