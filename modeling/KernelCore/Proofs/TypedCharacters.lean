import KernelCore.KeyboardDecoder
import KernelCore.Proofs.InputQueue

/-!
# Typed characters

A scancode may write a character, whose bytes are queued in the input ring. No key writes a
character of more than one byte, so a character finds room as a whole or not at all. What is taken
from the ring over any time, with scancodes coming in between, is therefore what was in it before
and then whole characters, in the order in which they were typed.
-/
namespace KernelCore

namespace Key

/-- The characters that a key may write, whatever other keys are held. -/
def characters : Key → List Char
  | .plain c => [c]
  | .shifting c shifted => [c, shifted]
  | .letter lower upper => [lower, upper]
  | .pad c off => c :: off.toList
  | _ => []

end Key

/-- All keys of all tables write characters of one byte. -/
theorem ScancodeTable.all_characters (table : ScancodeTable) (code : Nat) :
    (table.key code).characters.all (·.utf8Size = 1) = true := by
  cases table with
  | main =>
    change (Key.ofCode code).characters.all _ = true
    unfold Key.ofCode
    split <;> rfl
  | extended =>
    change (Key.ofExtendedCode code).characters.all _ = true
    unfold Key.ofExtendedCode
    split <;> rfl
  | pause =>
    change (Key.ofPauseCode code).characters.all _ = true
    unfold Key.ofPauseCode
    split <;> rfl

theorem ScancodeTable.utf8Size_eq_one {table : ScancodeTable} {code : Nat} {c : Char}
    (h : c ∈ (table.key code).characters) : c.utf8Size = 1 := by
  simpa using List.all_eq_true.mp (table.all_characters code) c h

namespace KeyboardDecoder

variable {n : Nat} {σ : Type} [Journal σ] {d : KeyboardDecoder} {scancode : UInt8} {c : Char}
  {r : InputRing n}

theorem character_mem {k : Key} (h : d.character k = some c) : c ∈ k.characters := by
  cases k with
  | plain c' => simpa [character, Key.characters, eq_comm] using h
  | shifting c' shifted =>
    simp only [character, Option.some.injEq] at h
    subst h
    split <;> simp [Key.characters]
  | letter lower upper =>
    simp only [character, Option.some.injEq] at h
    subst h
    split <;> simp [Key.characters]
  | pad c' off =>
    simp only [character] at h
    split at h <;> simp_all [Key.characters]
  | _ => cases h

/-- A character that a scancode writes is queued as one byte, whatever came before. -/
theorem length_encode_of_feed (h : (d.feed scancode).1 = some c) : (encode c).length = 1 := by
  rw [encode, String.length_utf8EncodeChar]
  simp only [feed] at h
  split at h
  · cases h
  · split at h
    · cases h
    · split at h
      · exact ScancodeTable.utf8Size_eq_one (character_mem h)
      · cases h

end KeyboardDecoder

namespace InputRing

variable {n : Nat} {r : InputRing n} {b : UInt8}

theorem pushAll_singleton (r : InputRing n) (b : UInt8) :
    r.pushAll [b] = if r.isFull then (0, r) else (1, (r.push b).2) := by
  cases full : r.isFull <;> simp [pushAll, push, full]

/-- Popping does to the queued bytes what it does to a queue. -/
theorem pop_eq_queue (r : InputRing n) :
    r.pop.1 = r.toList.head? ∧ r.pop.2.toList = r.toList.tail := by
  obtain ⟨answer, rest⟩ := Prod.mk.inj (ByteQueue.perform_toList r .pop)
  exact ⟨(RingAnswer.popped.inj answer).symm, rest.symm⟩

end InputRing

namespace KeyboardDecoder

variable {n : Nat} {σ : Type} [Journal σ]

/-- A scancode queues the whole character that it writes, or nothing. -/
inductive Queues (r : InputRing n) : Option Char → Nat → InputRing n → Prop where
  | whole {c : Char} {r' : InputRing n} (appended : r'.toList = r.toList ++ encode c) :
      Queues r (some c) (encode c).length r'
  | nothing {written : Option Char} (reason : written = none ∨ r.isFull = true) :
      Queues r written 0 r

/-- The decoder goes on in the same way whatever becomes of the character. -/
theorem feedInto_queues (d : KeyboardDecoder) (scancode : UInt8) (r : InputRing n) (journal : σ) :
    ∃ count r' journal',
      d.feedInto scancode r journal = (count, (d.feed scancode).2, r', journal') ∧
        Queues r (d.feed scancode).1 count r' := by
  rcases fed : d.feed scancode with ⟨_ | c, d'⟩
  · exact ⟨0, r, journal, by simp [feedInto, fed], .nothing (.inl rfl)⟩
  · have single : (encode c).length = 1 := length_encode_of_feed (by rw [fed])
    obtain ⟨b, only⟩ := List.length_eq_one_iff.mp single
    cases full : r.isFull with
    | true =>
      refine ⟨0, r, Journal.note (.warn "keyboard: console input full, dropping input") journal, ?_,
        .nothing (.inr full)⟩
      simp [feedInto, fed, only, InputRing.pushAll_singleton, full]
    | false =>
      have appended : (r.push b).2.toList = r.toList ++ encode c := by
        rw [InputRing.toList_push b full, only]
      refine ⟨(encode c).length, (r.push b).2, journal, ?_, .whole appended⟩
      simp [feedInto, fed, only, InputRing.pushAll_singleton, full]

theorem Queues.length_eq {r r' : InputRing n} {written : Option Char} {count : Nat}
    (h : Queues r written count r') : r'.length = r.length + count := by
  cases h with
  | whole appended => rw [← r'.length_toList, appended, List.length_append, r.length_toList]
  | nothing => rfl

end KeyboardDecoder

/-! ### Scancodes and pops in any order -/

inductive KeyboardCall where
  | feed (scancode : UInt8)
  | pop
  deriving DecidableEq, Repr

inductive KeyboardAnswer where
  | queued (count : Nat)
  | popped (b : Option UInt8)
  deriving DecidableEq, Repr

/-- A keyboard and the ring that its characters are queued in. -/
structure Keyboard (n : Nat) (σ : Type) where
  decoder : KeyboardDecoder
  ring : InputRing n
  journal : σ

namespace Keyboard

variable {n : Nat} {σ : Type} [Journal σ]

def perform (k : Keyboard n σ) : KeyboardCall → KeyboardAnswer × Keyboard n σ
  | .feed scancode =>
    let (count, d, r, journal) := k.decoder.feedInto scancode k.ring k.journal
    (.queued count, ⟨d, r, journal⟩)
  | .pop => (.popped k.ring.pop.1, { k with ring := k.ring.pop.2 })

def performAll : List KeyboardCall → Keyboard n σ → List KeyboardAnswer × Keyboard n σ
  | [], k => ([], k)
  | call :: calls, k =>
    let (answer, k) := k.perform call
    let (answers, k) := performAll calls k
    (answer :: answers, k)

/-- The scancodes that came in. -/
def scancodes (calls : List KeyboardCall) : List UInt8 :=
  calls.filterMap fun
    | .feed scancode => some scancode
    | .pop => none

/-- How many bytes were queued for each scancode. -/
def counts (answers : List KeyboardAnswer) : List Nat :=
  answers.filterMap fun
    | .queued count => some count
    | .popped _ => none

/-- The bytes that were taken. -/
def popped (answers : List KeyboardAnswer) : List UInt8 :=
  answers.filterMap fun
    | .queued _ => none
    | .popped b => b

/-- The characters written for which something was queued. -/
def kept : (written : List (Option Char)) → (counts : List Nat) → List Char
  | some c :: written, count :: counts =>
    if count = 0 then kept written counts else c :: kept written counts
  | none :: written, _ :: counts => kept written counts
  | _, _ => []

theorem kept_sublist (written : List (Option Char)) (counts : List Nat) :
    (kept written counts).Sublist (written.filterMap id) := by
  induction written generalizing counts with
  | nil => simp [kept]
  | cons w written ih =>
    cases counts with
    | nil => cases w <;> simp [kept]
    | cons count counts =>
      cases w with
      | none => simpa [kept] using ih counts
      | some c =>
        by_cases none : count = 0
        · simpa [kept, none] using (ih counts).cons c
        · simpa [kept, none] using ih counts

open KeyboardDecoder

theorem kept_cons {r r' : InputRing n} {w : Option Char} {count : Nat}
    (h : Queues r w count r') (written : List (Option Char)) (counts : List Nat) :
    r.toList ++ (kept (w :: written) (count :: counts)).flatMap encode =
      r'.toList ++ (kept written counts).flatMap encode := by
  cases h with
  | @whole c r' appended =>
    have some_bytes : (encode c).length ≠ 0 := by
      rw [encode, String.length_utf8EncodeChar]
      exact Nat.ne_of_gt c.utf8Size_pos
    rw [appended, kept, if_neg some_bytes, List.flatMap_cons, List.append_assoc]
  | nothing => cases w <;> simp [kept]

/-- What was in the ring and what came into it since is what was taken and what is still in it. The
decoder does not depend on the ring. -/
theorem conserves (calls : List KeyboardCall) (k : Keyboard n σ) :
    (performAll calls k).2.decoder = (k.decoder.feedAll (scancodes calls)).2 ∧
    k.ring.toList ++ (kept (k.decoder.feedAll (scancodes calls)).1
        (counts (performAll calls k).1)).flatMap KeyboardDecoder.encode =
      popped (performAll calls k).1 ++ (performAll calls k).2.ring.toList := by
  induction calls generalizing k with
  | nil => exact ⟨rfl, List.append_nil _⟩
  | cons call calls ih =>
    cases call with
    | feed scancode =>
      obtain ⟨count, r, journal, fed, queues⟩ :=
        k.decoder.feedInto_queues scancode k.ring k.journal
      obtain ⟨decoder, bytes⟩ := ih ⟨(k.decoder.feed scancode).2, r, journal⟩
      have called : k.perform (.feed scancode) =
          (.queued count, ⟨(k.decoder.feed scancode).2, r, journal⟩) := by
        simp only [perform, fed]
      simp only [performAll, called]
      refine ⟨decoder, ?_⟩
      exact (kept_cons queues _ _).trans bytes
    | pop =>
      obtain ⟨decoder, bytes⟩ := ih { k with ring := k.ring.pop.2 }
      obtain ⟨first, rest⟩ := k.ring.pop_eq_queue
      refine ⟨decoder, ?_⟩
      simp only [rest] at bytes
      cases queue : k.ring.toList with
      | nil =>
        simp only [queue, List.head?_nil, List.tail_nil] at first bytes
        simp only [performAll, perform, first]
        exact bytes
      | cons b queue' =>
        simp only [queue, List.head?_cons, List.tail_cons] at first bytes
        simp only [performAll, perform, first]
        exact congrArg (b :: ·) bytes

theorem length_encode_of_mem {d : KeyboardDecoder} {scancodes : List UInt8} {c : Char}
    (h : some c ∈ (d.feedAll scancodes).1) : (encode c).length = 1 := by
  induction scancodes generalizing d with
  | nil => cases h
  | cons scancode scancodes ih =>
    simp only [feedAll, List.mem_cons] at h
    rcases h with first | later
    · exact length_encode_of_feed first.symm
    · exact ih later

theorem flatMap_encode {cs : List Char} (single : ∀ c ∈ cs, (encode c).length = 1) :
    cs.flatMap encode = cs.map fun c => (encode c).headD 0 := by
  induction cs with
  | nil => rfl
  | cons c cs ih =>
    rw [List.forall_mem_cons] at single
    obtain ⟨b, only⟩ := List.length_eq_one_iff.mp single.1
    rw [List.flatMap_cons, List.map_cons, ih single.2, only]
    rfl

/-- Where every character is one byte, no cut goes through a character. -/
theorem exists_cut {before taken left : List UInt8} {cs : List Char}
    (single : ∀ c ∈ cs, (encode c).length = 1)
    (same : before ++ cs.flatMap encode = taken ++ left) :
    ∃ first rest, cs = first ++ rest ∧
      taken = before.take taken.length ++ first.flatMap encode ∧
      left = before.drop taken.length ++ rest.flatMap encode := by
  refine ⟨cs.take (taken.length - before.length), cs.drop (taken.length - before.length),
    (List.take_append_drop _ _).symm, ?_, ?_⟩
  · have front := congrArg (List.take taken.length) same
    rw [List.take_left, List.take_append, flatMap_encode single, ← List.map_take] at front
    rw [flatMap_encode fun c here => single c (List.mem_of_mem_take here)]
    exact front.symm
  · have back := congrArg (List.drop taken.length) same
    rw [List.drop_left, List.drop_append, flatMap_encode single, ← List.map_drop] at back
    rw [flatMap_encode fun c here => single c (List.mem_of_mem_drop here)]
    exact back.symm

/-- From any state of the decoder and of the ring, a scancode either queues the whole of the
character that it writes and answers with the number of its bytes, or finds no room or nothing to
write, answers with zero and leaves the ring alone; so the answer is what the ring has grown by, and
the decoder comes out the same. Over any calls, what is taken is what was in the ring and then the
first of the characters that were queued, as a whole and in the order in which they were typed. -/
theorem types_whole_characters (calls : List KeyboardCall) (k : Keyboard n σ) :
    (∀ (d : KeyboardDecoder) (scancode : UInt8) (r : InputRing n) (journal : σ),
      ∃ count r' journal',
        d.feedInto scancode r journal = (count, (d.feed scancode).2, r', journal') ∧
          Queues r (d.feed scancode).1 count r' ∧ r'.length = r.length + count) ∧
    let written := (k.decoder.feedAll (scancodes calls)).1
    let run := performAll calls k
    let queued := kept written (counts run.1)
    run.2.decoder = (k.decoder.feedAll (scancodes calls)).2 ∧
      queued.Sublist (written.filterMap id) ∧
      ∃ taken waiting, queued = taken ++ waiting ∧
        popped run.1 = k.ring.toList.take (popped run.1).length ++ taken.flatMap encode ∧
        run.2.ring.toList =
          k.ring.toList.drop (popped run.1).length ++ waiting.flatMap encode := by
  refine ⟨fun d scancode r journal => ?_, ?_⟩
  · obtain ⟨count, r', journal', fed, queues⟩ := d.feedInto_queues scancode r journal
    exact ⟨count, r', journal', fed, queues, queues.length_eq⟩
  · intro written run queued
    obtain ⟨decoder, bytes⟩ := conserves calls k
    have inOrder : queued.Sublist (written.filterMap id) := kept_sublist written (counts run.1)
    refine ⟨decoder, inOrder, exists_cut (fun c here => ?_) bytes⟩
    have typed := inOrder.subset here
    exact length_encode_of_mem (by simpa using typed)

end Keyboard
end KernelCore
