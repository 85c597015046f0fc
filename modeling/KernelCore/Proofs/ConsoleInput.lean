import KernelCore.Proofs.InputQueue
import KernelCore.Proofs.SyscallConfinement
import Mathlib.Data.List.Basic

/-!
# Input that is read

Bytes that come to the console wait in a queue, and two system calls take them from there: one as
many as fit into a buffer, the other a single one. A call takes the oldest bytes and nothing else:
what was queued is what it hands over and then what is still queued. So along a run with new input
at any time, what the programs got and what still waits make up what came in.
-/
namespace KernelCore

/-- The bytes are taken from a queue, the oldest first, as long as there are any. -/
def TakesOldest {σ : Type} (take : σ → Option UInt8 × σ) (queued : σ → List UInt8) : Prop :=
  ∀ s, (take s).1 = (queued s).head? ∧ queued (take s).2 = (queued s).tail

namespace TakesOldest

variable {σ : Type} {take : σ → Option UInt8 × σ} {queued : σ → List UInt8} {s t : σ} {b : UInt8}

theorem of_some (oldest : TakesOldest take queued) (h : take s = (some b, t)) :
    queued s = b :: queued t := by
  obtain ⟨first, rest⟩ := oldest s
  rw [h] at first rest
  rw [rest]
  exact (List.cons_head?_tail first.symm).symm

theorem of_none (oldest : TakesOldest take queued) (h : take s = (none, t)) :
    queued s = [] ∧ queued t = [] := by
  obtain ⟨first, rest⟩ := oldest s
  rw [h] at first rest
  have empty : queued s = [] := List.head?_eq_none_iff.mp first.symm
  exact ⟨empty, by rw [rest, empty, List.tail_nil]⟩

end TakesOldest

theorem Desk.takesOldest : TakesOldest Desk.takeInput Desk.input := by
  intro d
  rw [takeInput]
  cases h : d.input <;> simp [h]

theorem InputRing.takesOldest {n : Nat} : TakesOldest (pop (n := n)) toList := by
  intro r
  by_cases empty : r.tail = r.head
  · simp [pop, empty, toList_eq_nil empty]
  · rw [toList_pop empty]
    simp [pop, empty]

namespace ByteMemory

/-- Storing a byte and then the bytes after it is storing all of them. -/
theorem write_cons (m : ByteMemory) (a : Nat) (b : UInt8) (bytes : List UInt8) :
    (m.write a #[b]).write (a + 1) bytes.toArray = m.write a (b :: bytes).toArray := by
  rw [write, store_write_succ, write]
  congr 1
  funext i
  cases i <;> simp

theorem read_write (m : ByteMemory) (a : Nat) (bytes : List UInt8) :
    (m.write a bytes.toArray).read a bytes.length = bytes := m.read_write_self a bytes.toArray

theorem byte_write_of_out (m : ByteMemory) {a x : Nat} {bytes : List UInt8}
    (out : x < a ∨ a + bytes.length ≤ x) : (m.write a bytes.toArray).byte x = m.byte x := by
  rw [write, byte_store, List.size_toArray, if_neg (by omega)]

end ByteMemory

namespace Handlers

variable {δ : Type} [Services δ] {queued : δ → List UInt8} {c : SyscallContext} {s t u : Env δ}
  {answer : Except SyscallError UInt64}

/-- The oldest bytes go to the buffer, and the others stay queued. -/
theorem readConsole_oldest (oldest : TakesOldest (Services.readChar (δ := δ)) queued)
    (count a : Nat) (s : Env δ) :
    ∃ services, readConsole count a s = (((queued s.services).take count).length,
        ⟨s.memory.write a ((queued s.services).take count).toArray, services⟩) ∧
      queued services = (queued s.services).drop count := by
  induction count generalizing a s with
  | zero => exact ⟨s.services, by simp [readConsole, ByteMemory.write], rfl⟩
  | succ count ih =>
    rcases taken : Services.readChar s.services with ⟨_ | b, services⟩
    · obtain ⟨empty, still⟩ := oldest.of_none taken
      refine ⟨services, ?_, by simp [empty, still]⟩
      simp [readConsole, taken, empty, ByteMemory.write]
    · obtain ⟨services', rest, left⟩ := ih (a + 1) ⟨s.memory.write a #[b], services⟩
      have first : queued s.services = b :: queued services := oldest.of_some taken
      refine ⟨services', ?_, by rw [left, first, List.drop_succ_cons]⟩
      simp only [readConsole, taken, rest, first, List.take_succ_cons, List.length_cons,
        ByteMemory.write_cons]

/-- A call for input that may use its buffer answers with the number of bytes that it stored. -/
theorem read_oldest (oldest : TakesOldest (Services.readChar (δ := δ)) queued) (stdin : c.arg0 = 0)
    (allowed : rangeAllowed c c.arg1.toNat c.arg2.toNat = true) (s : Env δ) :
    ∃ w services, read c s = (.ok w, ⟨s.memory.write c.arg1.toNat
        ((queued s.services).take c.arg2.toNat).toArray, services⟩) ∧
      w.toNat = ((queued s.services).take c.arg2.toNat).length ∧
      queued services = (queued s.services).drop c.arg2.toNat := by
  obtain ⟨services, answer, left⟩ := readConsole_oldest oldest c.arg2.toNat c.arg1.toNat s
  refine ⟨UInt64.ofNat ((queued s.services).take c.arg2.toNat).length, services, ?_, ?_, left⟩
  · simp [read, stdin, allowed, answer]
  · have fits : ((queued s.services).take c.arg2.toNat).length < 2 ^ 64 :=
      Nat.lt_of_le_of_lt (List.length_take_le ..) c.arg2.toNat_lt
    rw [UInt64.toNat_ofNat_of_lt' fits]

/-- The bytes that a call for input hands over: as many as it answers, from its buffer on. -/
def bytesRead (c : SyscallContext) (m : ByteMemory) : Except SyscallError UInt64 → List UInt8
  | .ok w => m.read c.arg1.toNat w.toNat
  | .error _ => []

/-- The byte that a call for a single one hands over, unless it says that there is none. -/
def byteGot : Except SyscallError UInt64 → List UInt8
  | .ok w => if w = 0xffffffffffffffff then [] else [w.toUInt8]
  | .error _ => []

/-- What waited before is what is handed over and then what waits after, whether the call is served
or refused. -/
theorem queued_read (oldest : TakesOldest (Services.readChar (δ := δ)) queued)
    (call : read c s = (answer, t)) :
    queued s.services = bytesRead c t.memory answer ++ queued t.services := by
  by_cases stdin : c.arg0 = 0
  · by_cases allowed : rangeAllowed c c.arg1.toNat c.arg2.toNat = true
    · obtain ⟨w, services, served, count, left⟩ := read_oldest oldest stdin allowed s
      obtain ⟨rfl, rfl⟩ := Prod.mk.inj (served.symm.trans call)
      rw [bytesRead, count, ByteMemory.read_write, left, List.take_append_drop]
    · simp only [read, stdin, allowed, ne_eq, not_true_eq_false, if_false, Bool.not_false,
        if_true] at call
      obtain ⟨rfl, rfl⟩ := Prod.mk.inj call
      rfl
  · simp only [read, ne_eq, stdin, not_false_eq_true, if_true] at call
    obtain ⟨rfl, rfl⟩ := Prod.mk.inj call
    rfl

/-- No byte is taken for the word that says that there is none. -/
theorem toUInt64_ne_max (b : UInt8) : b.toUInt64 ≠ 0xffffffffffffffff := by
  intro same
  have value : b.toNat = 0xffffffffffffffff := by
    simpa using congrArg UInt64.toNat same
  have small := b.toNat_lt
  omega

theorem queued_getChar (oldest : TakesOldest (Services.readChar (δ := δ)) queued)
    (call : getChar c s = (answer, t)) :
    queued s.services = byteGot answer ++ queued t.services := by
  rw [getChar] at call
  rcases taken : Services.readChar s.services with ⟨_ | b, services⟩
  · rw [taken] at call
    obtain ⟨rfl, rfl⟩ := Prod.mk.inj call
    obtain ⟨empty, still⟩ := oldest.of_none taken
    rw [empty, still]
    rfl
  · rw [taken] at call
    obtain ⟨rfl, rfl⟩ := Prod.mk.inj call
    rw [oldest.of_some taken, byteGot, if_neg (toUInt64_ne_max b), UInt8.toUInt8_toUInt64]
    rfl

/-- Programs ask for input, and more of it comes in between: the bytes that came in since `s`, and
those that the programs got. Whatever else is done meanwhile, the bytes that wait stay there. -/
inductive InputRun (queued : δ → List UInt8) (s : Env δ) : (received delivered : List UInt8) →
    Env δ → Prop where
  | refl : InputRun queued s [] [] s
  | arrive {received delivered t u} (run : InputRun queued s received delivered t)
      (bytes : List UInt8) (more : queued u.services = queued t.services ++ bytes) :
      InputRun queued s (received ++ bytes) delivered u
  | read {received delivered t c answer u} (run : InputRun queued s received delivered t)
      (call : read c t = (answer, u)) :
      InputRun queued s received (delivered ++ bytesRead c u.memory answer) u
  | getChar {received delivered t c answer u} (run : InputRun queued s received delivered t)
      (call : getChar c t = (answer, u)) :
      InputRun queued s received (delivered ++ byteGot answer) u

/-- No byte is lost, and none is handed over twice or out of turn. -/
theorem InputRun.conserves (oldest : TakesOldest (Services.readChar (δ := δ)) queued)
    {received delivered : List UInt8} (run : InputRun queued s received delivered t) :
    queued s.services ++ received = delivered ++ queued t.services := by
  induction run with
  | refl => exact List.append_nil _
  | arrive _ bytes more ih => rw [more, ← List.append_assoc, ih, List.append_assoc]
  | read _ call ih => rw [ih, queued_read oldest call, List.append_assoc]
  | getChar _ call ih => rw [ih, queued_getChar oldest call, List.append_assoc]

/-- If the services take input from a queue, the oldest byte first, a call for input that may use
its buffer stores as many of the oldest bytes as are there and asked for, in order, and answers with
their number; all other bytes of memory stay, and so do the other bytes in the queue. So what
programs get over any run is the first part of what was there and what came in since, and the rest
still waits. -/
theorem read_loses_nothing (oldest : TakesOldest (Services.readChar (δ := δ)) queued) :
    (∀ (c : SyscallContext) (s : Env δ), c.arg0 = 0 →
      rangeAllowed c c.arg1.toNat c.arg2.toNat = true →
        ∃ w t, read c s = (.ok w, t) ∧
          w.toNat = min c.arg2.toNat (queued s.services).length ∧
          t.memory.read c.arg1.toNat w.toNat = (queued s.services).take w.toNat ∧
          (∀ x, x < c.arg1.toNat ∨ c.arg1.toNat + w.toNat ≤ x →
            t.memory.byte x = s.memory.byte x) ∧
          queued t.services = (queued s.services).drop w.toNat) ∧
    ∀ s received delivered t, InputRun queued s received delivered t →
      queued s.services ++ received = delivered ++ queued t.services ∧
        delivered <+: queued s.services ++ received := by
  refine ⟨fun c s stdin allowed => ?_, fun s received delivered t run => ?_⟩
  · obtain ⟨w, services, served, count, left⟩ := read_oldest oldest stdin allowed s
    have least : w.toNat = min c.arg2.toNat (queued s.services).length :=
      count.trans List.length_take
    refine ⟨w, _, served, least, ?_, fun x out => ?_, ?_⟩
    · rw [count, ByteMemory.read_write, ← count, least, ← List.take_eq_take_min]
    · rw [count] at out
      exact s.memory.byte_write_of_out out
    · rw [left, least, ← List.drop_eq_drop_min]
  · have same := run.conserves oldest
    exact ⟨same, _, same.symm⟩

/-- A program of ring 3 asks for two bytes. -/
def readTwo : SyscallContext :=
  { number := 3, arg0 := 0, arg1 := 0x1000, arg2 := 2, arg3 := 0, arg4 := 0, fromUser := true }

/-- Three bytes have been typed. -/
def typed : Env Desk := ⟨.filled 0, { input := [97, 98, 99] }⟩

/-- After the program has read two of the bytes and another one has come in, it gets the third. -/
theorem read_loses_nothing_typed :
    TakesOldest (Services.readChar (δ := Desk)) Desk.input ∧
      (∃ w t, read readTwo typed = (.ok w, t) ∧ t.memory.read 0x1000 2 = [97, 98] ∧
        t.services.input = [99]) ∧
      ∃ t, InputRun Desk.input typed [100] [97, 98, 99] t ∧ t.services.input = [100] := by
  obtain ⟨reads, runs⟩ := read_loses_nothing Desk.takesOldest
  obtain ⟨w, t, served, count, stored, -, left⟩ := reads readTwo typed rfl (by decide)
  have two : w.toNat = 2 := count
  rw [two] at stored left
  have two_read : InputRun Desk.input typed [] [97, 98] t := by
    have run : InputRun Desk.input typed [] ([] ++ bytesRead readTwo t.memory (.ok w)) t :=
      InputRun.refl.read served
    rwa [bytesRead, two, stored] at run
  have one_more : InputRun Desk.input typed [100] [97, 98]
      ⟨t.memory, { t.services with input := [99, 100] }⟩ :=
    two_read.arrive [100] (by rw [left]; rfl)
  have got : getChar readTwo ⟨t.memory, { t.services with input := [99, 100] }⟩ =
      (.ok 99, ⟨t.memory, { t.services with input := [100] }⟩) := rfl
  have run : InputRun Desk.input typed [100] [97, 98, 99]
      ⟨t.memory, { t.services with input := [100] }⟩ := one_more.getChar got
  have rest := List.append_cancel_left (runs _ _ _ _ run).1
  exact ⟨Desk.takesOldest, ⟨w, t, served, stored, left⟩, _, run, rest.symm⟩

end Handlers
end KernelCore
