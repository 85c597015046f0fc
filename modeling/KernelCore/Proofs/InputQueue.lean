import KernelCore.InputRing

/-!
# The input ring as a queue

A ring of `n` cells answers every sequence of calls as a queue does that holds at most `n - 1`
bytes. The queue is given by what it answers and what it then holds; `ByteQueue.perform_toList` is
the step from a ring to the queue that it stands for, and `transcript_map` takes it along a whole
sequence.
-/
namespace KernelCore

/-- What a ring is asked. -/
inductive RingCall where
  | push (b : UInt8)
  | pop
  | length
  | isEmpty
  deriving DecidableEq, Repr

inductive RingAnswer where
  | pushed (queued : Bool)
  | popped (b : Option UInt8)
  | counted (count : Nat)
  | tested (empty : Bool)
  deriving DecidableEq, Repr

namespace RingAnswer

/-- The answer of a call that found no room or no byte, or that only looked. -/
def nothingMoved : RingAnswer → Bool
  | .pushed queued => !queued
  | .popped b => b.isNone
  | .counted _ | .tested _ => true

end RingAnswer

/-- A sequence of calls, each with its answer. -/
abbrev RingTranscript := List (RingCall × RingAnswer)

namespace RingTranscript

/-- The bytes that found room, in the order of the calls. -/
def accepted (t : RingTranscript) : List UInt8 :=
  t.filterMap fun
    | (.push b, .pushed true) => some b
    | _ => none

/-- The bytes that were taken out, in the order of the calls. -/
def taken (t : RingTranscript) : List UInt8 :=
  t.filterMap fun
    | (.pop, .popped b) => b
    | _ => none

end RingTranscript

section Transcripts

variable {σ τ : Type}

/-- Makes the calls one after the other. -/
def transcript (perform : σ → RingCall → RingAnswer × σ) :
    List RingCall → σ → RingTranscript × σ
  | [], s => ([], s)
  | call :: calls, s =>
    let (answer, s) := perform s call
    let (rest, s) := transcript perform calls s
    ((call, answer) :: rest, s)

/-- If every call is answered alike in a state and in what the state stands for, so are all calls of
a sequence. -/
theorem transcript_map {perform : σ → RingCall → RingAnswer × σ}
    {perform' : τ → RingCall → RingAnswer × τ} {view : σ → τ}
    (step : ∀ s call, perform' (view s) call = ((perform s call).1, view (perform s call).2))
    (calls : List RingCall) (s : σ) :
    transcript perform' calls (view s) =
      ((transcript perform calls s).1, view (transcript perform calls s).2) := by
  induction calls generalizing s with
  | nil => rfl
  | cons call calls ih => simp only [transcript, step, ih]

end Transcripts

namespace ByteQueue

/-- A queue of bytes, the oldest first. It takes another one while there are fewer than
`capacity`. -/
def perform (capacity : Nat) (queue : List UInt8) : RingCall → RingAnswer × List UInt8
  | .push b =>
    if queue.length < capacity then (.pushed true, queue ++ [b]) else (.pushed false, queue)
  | .pop => (.popped queue.head?, queue.tail)
  | .length => (.counted queue.length, queue)
  | .isEmpty => (.tested queue.isEmpty, queue)

/-- A byte that was accepted is taken or still queued, and the bytes keep their order. -/
theorem accepted_eq (capacity : Nat) (calls : List RingCall) (queue : List UInt8) :
    queue ++ (transcript (perform capacity) calls queue).1.accepted =
      (transcript (perform capacity) calls queue).1.taken ++
        (transcript (perform capacity) calls queue).2 := by
  induction calls generalizing queue with
  | nil => exact List.append_nil queue
  | cons call calls ih =>
    cases call with
    | push b =>
      by_cases room : queue.length < capacity
      · have rest := ih (queue ++ [b])
        rw [List.append_assoc] at rest
        simpa [transcript, perform, room, RingTranscript.accepted, RingTranscript.taken] using rest
      · simpa [transcript, perform, room, RingTranscript.accepted, RingTranscript.taken] using
          ih queue
    | pop =>
      cases queue with
      | nil => exact ih []
      | cons b queue => exact congrArg (b :: ·) (ih queue)
    | length | isEmpty => exact ih queue

end ByteQueue

namespace InputRing

variable {n : Nat}

def perform (r : InputRing n) : RingCall → RingAnswer × InputRing n
  | .push b => (.pushed (r.push b).1, (r.push b).2)
  | .pop => (.popped r.pop.1, r.pop.2)
  | .length => (.counted r.length, r)
  | .isEmpty => (.tested r.isEmpty, r)

/-- A call that moves no byte leaves head, tail and every cell alone. -/
theorem perform_of_nothingMoved {r : InputRing n} {call : RingCall}
    (h : (r.perform call).1.nothingMoved = true) : (r.perform call).2 = r := by
  cases call with
  | push b =>
    by_cases full : r.isFull = true
    · simp only [perform, push, full, if_true]
    · simp [perform, push, full, RingAnswer.nothingMoved] at h
  | pop =>
    by_cases none : r.tail = r.head
    · simp only [perform, pop, none, if_true]
    · simp [perform, pop, none, RingAnswer.nothingMoved] at h
  | length | isEmpty => rfl

/-- Tail and head meet only when nothing is queued, since one cell stays free. -/
theorem toList_eq_nil {r : InputRing n} (h : r.tail = r.head) : r.toList = [] := by
  rw [← List.length_eq_zero_iff, length_toList, length_eq, h, if_pos (Nat.le_refl _), Nat.sub_self]

end InputRing

namespace ByteQueue

open InputRing

variable {n : Nat}

/-- Wherever in the cells the bytes of a ring lie, a call does to it what it does to the queue. -/
theorem perform_toList (r : InputRing n) (call : RingCall) :
    perform (n - 1) r.toList call = ((r.perform call).1, (r.perform call).2.toList) := by
  cases call with
  | push b =>
    have fits := r.length_lt
    cases full : r.isFull with
    | true =>
      have held := r.isFull_iff.mp full
      rw [perform, length_toList, if_neg (by omega)]
      simp only [InputRing.perform, push, full, if_true]
    | false =>
      have held : r.length ≠ n - 1 := by
        intro h
        rw [r.isFull_iff.mpr h] at full
        cases full
      rw [perform, length_toList, if_pos (by omega)]
      simp only [InputRing.perform, toList_push b full]
      simp only [push, full, Bool.false_eq_true, if_false]
  | pop =>
    by_cases none : r.tail = r.head
    · simp only [perform, InputRing.perform, pop, none, toList_eq_nil none, if_true]
      rfl
    · rw [perform, toList_pop none]
      simp only [InputRing.perform, pop, none, if_false]
      rfl
  | length => rw [perform, length_toList]; rfl
  | isEmpty =>
    have same : r.toList.isEmpty = r.isEmpty := by
      rw [Bool.eq_iff_iff, List.isEmpty_iff_length_eq_zero, length_toList, InputRing.isEmpty,
        beq_iff_eq]
    rw [perform, same]
    rfl

end ByteQueue

namespace InputRing

variable {n : Nat}

/-- A new ring answers any sequence of calls as an empty queue for `n - 1` bytes does, and then
holds what the queue holds. So the bytes taken are the first ones of those accepted, and the others
are still queued. A call that finds no room or no byte leaves the ring as it was. -/
theorem answers_as_queue (h : 0 < n) (calls : List RingCall) :
    let ring := transcript perform calls (empty h)
    let queue := transcript (ByteQueue.perform (n - 1)) calls []
    ring.1 = queue.1 ∧ ring.2.toList = queue.2 ∧ ring.2.toList.length ≤ n - 1 ∧
      ring.1.accepted = ring.1.taken ++ ring.2.toList ∧
      ∀ call, (ring.2.perform call).1.nothingMoved = true → (ring.2.perform call).2 = ring.2 := by
  intro ring queue
  have bare : (empty h).toList = [] := toList_eq_nil rfl
  have same : queue = (ring.1, ring.2.toList) := by
    have run := transcript_map ByteQueue.perform_toList calls (empty h)
    rwa [bare] at run
  have conserved := ByteQueue.accepted_eq (n - 1) calls []
  have within := ring.2.length_lt
  rw [← length_toList] at within
  change queue.1.accepted = queue.1.taken ++ queue.2 at conserved
  rw [same] at conserved ⊢
  exact ⟨rfl, rfl, by omega, conserved, fun _ => perform_of_nothingMoved⟩

/-- Of three cells one stays free, so byte 3 finds no room. Byte 5 lies in the first cell again. -/
def wrapping : List RingCall :=
  [.push 1, .push 2, .push 3, .pop, .push 4, .pop, .push 5, .length, .pop, .pop, .pop]

theorem answers_as_queue_wrapping : 0 < 3 ∧
    (transcript perform wrapping (empty (n := 3) (by decide))).1.map Prod.snd =
      [.pushed true, .pushed true, .pushed false, .popped (some 1), .pushed true,
        .popped (some 2), .pushed true, .counted 2, .popped (some 4), .popped (some 5),
        .popped none] := by
  refine ⟨by decide, ?_⟩
  rw [(answers_as_queue (by decide) wrapping).1]
  rfl

end InputRing
end KernelCore
