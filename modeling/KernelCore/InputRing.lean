/-!
# The input ring

A queue of bytes in a ring of `n` cells, filled at the head and emptied at the tail. One cell stays
free, so that a full ring differs from an empty one; a byte that finds the ring full is dropped.
`toList` is the queue that the ring stands for, and `toList_push` and `toList_pop` say what filling
and emptying do to it.
-/
namespace KernelCore

structure InputRing (n : Nat) where
  cells : Vector UInt8 n
  head : Fin n
  tail : Fin n

namespace InputRing

def consoleSize : Nat := 256

variable {n : Nat}

def empty (h : 0 < n) : InputRing n := ⟨Vector.replicate n 0, ⟨0, h⟩, ⟨0, h⟩⟩

/-- The cell `count` steps further on. After the last cell comes the first one. -/
def advance (i : Fin n) (count : Nat) : Fin n :=
  ⟨(i.val + count) % n, Nat.mod_lt _ (Nat.lt_of_le_of_lt (Nat.zero_le _) i.isLt)⟩

/-- No cell but the one that stays free is left. -/
def isFull (r : InputRing n) : Bool := advance r.head 1 == r.tail

/-- Queues a byte. Answers whether there was room for it. -/
def push (r : InputRing n) (b : UInt8) : Bool × InputRing n :=
  if r.isFull then (false, r)
  else (true, { r with cells := r.cells.set r.head b r.head.isLt, head := advance r.head 1 })

/-- Takes the oldest byte. -/
def pop (r : InputRing n) : Option UInt8 × InputRing n :=
  if r.tail = r.head then (none, r)
  else (some r.cells[r.tail], { r with tail := advance r.tail 1 })

def length (r : InputRing n) : Nat := (r.head.val + n - r.tail.val) % n

/-- The queued bytes, the oldest first. -/
def toList (r : InputRing n) : List UInt8 :=
  (List.range r.length).map fun i => r.cells[advance r.tail i]

def isEmpty (r : InputRing n) : Bool := r.length == 0

def pushAll (r : InputRing n) : List UInt8 → Nat × InputRing n
  | [] => (0, r)
  | b :: bs =>
    match r.push b with
    | (false, r) => (0, r)
    | (true, r) =>
      let (count, r) := r.pushAll bs
      (count + 1, r)

/-- Queues those of the bytes that find room. Answers for each whether it did. -/
def pushEach (r : InputRing n) : List UInt8 → List Bool × InputRing n
  | [] => ([], r)
  | b :: bs =>
    let (queued, r) := r.push b
    let (rest, r) := r.pushEach bs
    (queued :: rest, r)

def popMany (r : InputRing n) : Nat → List (Option UInt8) × InputRing n
  | 0 => ([], r)
  | count + 1 =>
    let (b, r) := r.pop
    let (rest, r) := r.popMany count
    (b :: rest, r)

def drain (r : InputRing n) : List UInt8 × InputRing n :=
  let (bytes, r) := r.popMany r.length
  (bytes.filterMap id, r)

/-- The bytes lie between tail and head, which may be on either side of the last cell. -/
theorem length_eq (r : InputRing n) :
    r.length = if r.tail.val ≤ r.head.val then r.head.val - r.tail.val
      else r.head.val + n - r.tail.val := by
  have hh := r.head.isLt
  have ht := r.tail.isLt
  unfold length
  split
  · rw [show r.head.val + n - r.tail.val = r.head.val - r.tail.val + n by omega,
      Nat.add_mod_right, Nat.mod_eq_of_lt (by omega)]
  · exact Nat.mod_eq_of_lt (by omega)

theorem length_lt (r : InputRing n) : r.length < n :=
  Nat.mod_lt _ (Nat.lt_of_le_of_lt (Nat.zero_le _) r.head.isLt)

@[simp] theorem length_toList (r : InputRing n) : r.toList.length = r.length := by
  simp [toList]

theorem getElem_toList (r : InputRing n) {i : Nat} (h : i < r.toList.length) :
    r.toList[i] = r.cells[advance r.tail i] := by
  simp only [toList, List.getElem_map, List.getElem_range]

theorem val_advance (i : Fin n) {count : Nat} (h : count ≤ n) :
    (advance i count).val = if i.val + count < n then i.val + count else i.val + count - n := by
  have hi := i.isLt
  unfold advance
  split
  · exact Nat.mod_eq_of_lt (by assumption)
  · simp only
    rw [Nat.mod_eq_sub_mod (by omega), Nat.mod_eq_of_lt (by omega)]

theorem advance_zero (i : Fin n) : advance i 0 = i := Fin.ext (Nat.mod_eq_of_lt i.isLt)

theorem advance_advance (i : Fin n) (a b : Nat) :
    advance (advance i a) b = advance i (a + b) := by
  simp only [advance, Nat.mod_add_mod, Nat.add_assoc]

theorem isFull_iff (r : InputRing n) : r.isFull = true ↔ r.length = n - 1 := by
  have hh := r.head.isLt
  have ht := r.tail.isLt
  rw [isFull, beq_iff_eq, Fin.ext_iff, val_advance _ (by omega), length_eq]
  split <;> split <;> omega

theorem length_push_of_not_full {r : InputRing n} (b : UInt8) (h : r.isFull = false) :
    (r.push b).2.length = r.length + 1 := by
  have hf : advance r.head 1 ≠ r.tail := by simpa [isFull] using h
  have hh := r.head.isLt
  have ht := r.tail.isLt
  have hv := val_advance r.head (show 1 ≤ n by omega)
  rw [Ne, Fin.ext_iff, hv] at hf
  simp only [push, h, length_eq, hv, Bool.false_eq_true, if_false]
  split at hf <;> simp only [*, if_true, if_false] <;> split <;> split <;> omega

/-- A byte that finds room comes after all the others. -/
theorem toList_push {r : InputRing n} (b : UInt8) (h : r.isFull = false) :
    (r.push b).2.toList = r.toList ++ [b] := by
  have hl := length_push_of_not_full b h
  have hn := (r.push b).2.length_lt
  rw [hl] at hn
  have hh := r.head.isLt
  have ht := r.tail.isLt
  apply List.ext_getElem
  · simp [hl]
  · intro i h₁ _
    rw [length_toList, hl] at h₁
    have hi : (advance r.tail i).val = r.head.val ↔ i = r.length := by
      rw [val_advance _ (by omega), length_eq]
      rw [length_eq] at h₁ hn
      split <;> split at h₁ <;> split <;> omega
    have hp : (r.push b).2 =
        { r with cells := r.cells.set r.head b r.head.isLt, head := advance r.head 1 } := by
      simp [push, h]
    rw [getElem_toList]
    simp only [hp]
    by_cases hr : i = r.length
    · rw [List.getElem_append_right (by rw [length_toList]; omega)]
      simp only [List.getElem_singleton, Fin.getElem_fin, hi.2 hr, Vector.getElem_set_self]
    · rw [List.getElem_append_left (by rw [length_toList]; omega), getElem_toList]
      exact Vector.getElem_set_ne _ _ fun e => hr (hi.1 e.symm)

theorem length_pop {r : InputRing n} (h : r.tail ≠ r.head) : r.pop.2.length + 1 = r.length := by
  rw [Ne, Fin.ext_iff] at h
  have hh := r.head.isLt
  have ht := r.tail.isLt
  have hv := val_advance r.tail (show 1 ≤ n by omega)
  simp only [pop, Fin.ext_iff, h, length_eq, hv, if_false]
  split <;> split <;> split <;> omega

/-- The byte that is taken is the one before all the others. -/
theorem toList_pop {r : InputRing n} (h : r.tail ≠ r.head) :
    r.toList = r.cells[r.tail] :: r.pop.2.toList := by
  have hl := length_pop h
  apply List.ext_getElem
  · simp [hl]
  · intro i h₁ _
    have hp : r.pop.2 = { r with tail := advance r.tail 1 } := by simp [pop, h]
    rw [getElem_toList]
    cases i with
    | zero => simp only [advance_zero, List.getElem_cons_zero]
    | succ i =>
      simp only [List.getElem_cons_succ, getElem_toList, hp, advance_advance, Nat.add_comm 1]

@[simp] theorem length_empty (h : 0 < n) : (empty h).length = 0 := by simp [empty, length]

end InputRing
end KernelCore
