import KernelCore.Proofs.ConsoleInput

/-!
# Events that are delivered

A program asks for an event of a window and finds it in its memory, twenty bytes long. The call
checks the room for it before it asks the window service, so no event is taken that could not be
stored: the service gives one up exactly if the call answers one, and then the program has it. So
along a run with new events at any time, what the programs got and what the service still holds are
the events that came in, each of them once.
-/
namespace KernelCore

namespace LittleEndian

theorem ofBytes_toBytes_four {n : Nat} (h : n < 0x100000000) : ofBytes (toBytes 4 n) = n := by
  simp only [toBytes, ofBytes, UInt8.toNat_ofNat']
  omega

/-- Numbers of four bytes each, one after the other. -/
def ofWords (words : List UInt32) : List UInt8 := words.flatMap fun w => toBytes 4 w.toNat

@[simp] theorem length_ofWords (words : List UInt32) :
    (ofWords words).length = 4 * words.length := by
  simp [ofWords, Nat.mul_comm]

end LittleEndian

theorem WindowEvent.bytes_eq_ofWords (e : WindowEvent) :
    e.bytes = LittleEndian.ofWords [e.kind, e.key.toUInt32, e.mouseX.toUInt32, e.mouseY.toUInt32,
      e.mouseButtons.toUInt32] := by
  simp [bytes, LittleEndian.ofWords]

namespace ByteMemory

open LittleEndian

/-- Bytes are found again between others that are stored with them. -/
theorem read_write_between (m : ByteMemory) (a : Nat) (before bytes after : List UInt8) :
    (m.write a (before ++ bytes ++ after).toArray).read (a + before.length) bytes.length =
      bytes := by
  apply List.ext_getElem
  · simp
  · intro i h _
    simp only [length_read] at h
    have stored : a + before.length + i - a < (before ++ bytes ++ after).toArray.size := by
      simp
      omega
    have past : a + before.length + i - a = before.length + i := by omega
    have behind : ¬ before.length + i < before.length := by omega
    simp only [read, write, byte_store, List.getElem_map, List.getElem_range]
    rw [if_pos ⟨by omega, stored⟩, past]
    simp [List.getElem?_append, h, behind]

/-- The number that the four bytes from `a` on spell. -/
def word (m : ByteMemory) (a : Nat) : UInt32 := UInt32.ofNat (ofBytes (m.read a 4))

theorem word_write_ofWords (m : ByteMemory) (a : Nat) (before : List UInt32) (w : UInt32)
    (after : List UInt32) :
    (m.write a (ofWords (before ++ w :: after)).toArray).word (a + 4 * before.length) = w := by
  have split : ofWords (before ++ w :: after) =
      ofWords before ++ toBytes 4 w.toNat ++ ofWords after := by simp [ofWords]
  have found := m.read_write_between a (ofWords before) (toBytes 4 w.toNat) (ofWords after)
  rw [length_toBytes, length_ofWords] at found
  rw [word, split, found, ofBytes_toBytes_four w.toNat_lt, UInt32.ofNat_toNat]

/-- The event whose five fields stand in memory from `a` on, one after the other. -/
def event (m : ByteMemory) (a : Nat) : WindowEvent where
  kind := m.word a
  key := (m.word (a + 4)).toInt32
  mouseX := (m.word (a + 8)).toInt32
  mouseY := (m.word (a + 12)).toInt32
  mouseButtons := (m.word (a + 16)).toInt32

theorem event_storeEvent (m : ByteMemory) (a : Nat) (e : WindowEvent) :
    (Handlers.storeEvent e a m).event a = e := by
  have field := m.word_write_ofWords a
  rw [Handlers.storeEvent, e.bytes_eq_ofWords, event]
  obtain ⟨kind, key, mouseX, mouseY, mouseButtons⟩ := e
  congr 1
  · exact field [] kind _
  · exact congrArg UInt32.toInt32 (field [kind] key.toUInt32 _)
  · exact congrArg UInt32.toInt32 (field [kind, key.toUInt32] mouseX.toUInt32 _)
  · exact congrArg UInt32.toInt32 (field [kind, key.toUInt32, mouseX.toUInt32] mouseY.toUInt32 _)
  · exact congrArg UInt32.toInt32
      (field [kind, key.toUInt32, mouseX.toUInt32, mouseY.toUInt32] mouseButtons.toUInt32 _)

end ByteMemory

/-- A window service that keeps events until they are asked for. -/
structure EventStore (δ : Type) [Services δ] where
  /-- There is such a window. -/
  live : UInt64 → δ → Prop
  /-- The events that a window can get. -/
  waiting : UInt64 → δ → List WindowEvent
  /-- All events that are kept. -/
  held : δ → List WindowEvent
  missing {w : UInt64} {d d' : δ} (poll : Services.pollEvent w d = (.noSuchWindow, d')) :
    ¬ live w d ∧ (held d').Perm (held d)
  empty {w : UInt64} {d d' : δ} (poll : Services.pollEvent w d = (.empty, d')) :
    live w d ∧ waiting w d = [] ∧ (held d').Perm (held d)
  event {w : UInt64} {d d' : δ} {e : WindowEvent} (poll : Services.pollEvent w d = (.event e, d')) :
    live w d ∧ e ∈ waiting w d ∧ (held d).Perm (e :: held d')

/-- A window that is open gets the oldest event. -/
theorem Desk.pollEvent_cases {w : UInt64} {d d' : Desk} {answer : EventPoll}
    (poll : Services.pollEvent w d = (answer, d')) :
    (¬ d.isOpen w ∧ answer = .noSuchWindow ∧ d'.events = d.events) ∨
    (d.isOpen w ∧ answer = .empty ∧ d.events = [] ∧ d'.events = []) ∨
    ∃ e, d.isOpen w ∧ answer = .event e ∧ d.events = e :: d'.events := by
  change (if d.isOpen w then (d.record (.pollEvent w)).takeEvent
    else (.noSuchWindow, d.record (.pollEvent w))) = (answer, d') at poll
  split at poll
  · rename_i opened
    rw [takeEvent] at poll
    split at poll
    · rename_i none
      cases poll
      exact .inr (.inl ⟨opened, rfl, none, none⟩)
    · rename_i e events some
      cases poll
      exact .inr (.inr ⟨e, opened, rfl, some⟩)
  · rename_i closed
    cases poll
    exact .inl ⟨closed, rfl, rfl⟩

/-- All windows of a desk share one queue. -/
def Desk.eventStore : EventStore Desk where
  live w d := d.isOpen w = true
  waiting _ d := d.events
  held d := d.events
  missing poll := by
    obtain ⟨closed, -, same⟩ | ⟨-, other, -⟩ | ⟨_, -, other, -⟩ := Desk.pollEvent_cases poll
    · exact ⟨closed, .of_eq same⟩
    · cases other
    · cases other
  empty poll := by
    obtain ⟨-, other, -⟩ | ⟨opened, -, none, still⟩ | ⟨_, -, other, -⟩ := Desk.pollEvent_cases poll
    · cases other
    · exact ⟨opened, none, .of_eq (still.trans none.symm)⟩
    · cases other
  event poll := by
    obtain ⟨-, other, -⟩ | ⟨-, other, -⟩ | ⟨_, opened, this, queue⟩ := Desk.pollEvent_cases poll
    · cases other
    · cases other
    · cases this
      exact ⟨opened, queue ▸ List.mem_cons_self, .of_eq queue⟩

namespace Handlers

variable {δ : Type} [Services δ] {store : EventStore δ} {c : SyscallContext} {s t u : Env δ}
  {answer : Except SyscallError UInt64}

/-- The caller may use the twenty bytes from its second argument on. -/
structure HasRoom (c : SyscallContext) : Prop where
  no_wrap : c.arg1.toNat + 20 < wordLimit
  below_end : c.fromUser = true → c.arg1.toNat + 20 ≤ userSpaceEnd

theorem rangeAllowed_iff_hasRoom (named : c.arg1 ≠ 0) :
    rangeAllowed c c.arg1.toNat WindowEvent.size = true ↔ HasRoom c := by
  have nonzero : c.arg1.toNat ≠ 0 := fun h => named (UInt64.toNat_inj.mp h)
  rw [rangeAllowed_iff]
  exact ⟨fun ⟨_, fits, below⟩ => ⟨fits, below⟩, fun ⟨fits, below⟩ => ⟨nonzero, fits, below⟩⟩

/-- The ways in which a poll of the window in the first argument ends. -/
inductive Polled (store : EventStore δ) (c : SyscallContext) (s : Env δ) :
    Except SyscallError UInt64 → Env δ → Prop where
  /-- The caller wants no event. -/
  | nowhere (none : c.arg1 = 0) : Polled store c s (.ok 0) s
  | refused (named : c.arg1 ≠ 0) (outside : ¬ HasRoom c) :
      Polled store c s (.error .invalidArgument) s
  /-- The window is gone. -/
  | missing {m d} (named : c.arg1 ≠ 0) (room : HasRoom c) (gone : ¬ store.live c.arg0 s.services)
      (quit : m.event c.arg1.toNat = .quit) (same : (store.held d).Perm (store.held s.services)) :
      Polled store c s (.ok 0) ⟨m, d⟩
  | empty {d} (named : c.arg1 ≠ 0) (room : HasRoom c) (live : store.live c.arg0 s.services)
      (none : store.waiting c.arg0 s.services = [])
      (same : (store.held d).Perm (store.held s.services)) :
      Polled store c s (.ok 0) ⟨s.memory, d⟩
  /-- An event is taken from the service and stands in memory. -/
  | event {m d} (named : c.arg1 ≠ 0) (room : HasRoom c) (live : store.live c.arg0 s.services)
      (waits : m.event c.arg1.toNat ∈ store.waiting c.arg0 s.services)
      (taken : (store.held s.services).Perm (m.event c.arg1.toNat :: store.held d)) :
      Polled store c s (.ok 1) ⟨m, d⟩

theorem polled_eventPoll (store : EventStore δ) (c : SyscallContext) (s : Env δ) :
    Polled store c s (eventPoll c s).1 (eventPoll c s).2 := by
  rw [eventPoll]
  by_cases none : c.arg1 = 0
  · rw [if_pos none]
    exact .nowhere none
  · rw [if_neg none]
    cases allowed : rangeAllowed c c.arg1.toNat WindowEvent.size with
    | false =>
      refine .refused none fun room => ?_
      rw [(rangeAllowed_iff_hasRoom none).mpr room] at allowed
      cases allowed
    | true =>
      have room := (rangeAllowed_iff_hasRoom none).mp allowed
      simp only [Bool.not_true, Bool.false_eq_true, if_false]
      rcases poll : Services.pollEvent c.arg0 s.services with ⟨e | _ | _, d⟩
      · obtain ⟨live, waits, taken⟩ := store.event poll
        have stored := s.memory.event_storeEvent c.arg1.toNat e
        refine .event none room live ?_ ?_
        · rw [stored]
          exact waits
        · rw [stored]
          exact taken
      · obtain ⟨live, nothing, same⟩ := store.empty poll
        exact .empty none room live nothing same
      · obtain ⟨gone, same⟩ := store.missing poll
        exact .missing none room gone (s.memory.event_storeEvent _ _) same

/-- No byte changes but the twenty of the event. -/
theorem byte_eventPoll {x : Nat} (out : x < c.arg1.toNat ∨ c.arg1.toNat + 20 ≤ x) :
    (eventPoll c s).2.memory.byte x = s.memory.byte x := by
  have stored (e : WindowEvent) :
      (storeEvent e c.arg1.toNat s.memory).byte x = s.memory.byte x := by
    apply s.memory.byte_write_of_out
    rw [e.length_bytes]
    exact out
  rw [eventPoll]
  split
  · rfl
  · split
    · rfl
    · split
      · exact stored _
      · exact stored _
      · rfl

/-- The event that a poll has left for its caller, if it answers one. -/
def eventGot (c : SyscallContext) (m : ByteMemory) : Except SyscallError UInt64 → List WindowEvent
  | .ok w => if w = 1 then [m.event c.arg1.toNat] else []
  | .error _ => []

/-- What the service kept is what the caller has got and what the service keeps now. -/
theorem Polled.conserves (polled : Polled store c s answer t) :
    (store.held s.services).Perm (eventGot c t.memory answer ++ store.held t.services) := by
  cases polled with
  | nowhere | refused => exact .refl _
  | missing _ _ _ _ same | empty _ _ _ _ same => exact same.symm
  | event _ _ _ _ taken => exact taken

/-- The service has one event less exactly if the poll answers one. -/
theorem Polled.answer_iff (polled : Polled store c s answer t) :
    answer = .ok 1 ↔ ∃ e, (store.held s.services).Perm (e :: store.held t.services) := by
  have count := polled.conserves.length_eq
  constructor
  · rintro rfl
    exact ⟨_, polled.conserves⟩
  · rintro ⟨e, taken⟩
    have one := taken.length_eq
    rw [count, List.length_append, List.length_cons] at one
    cases polled with
    | event => rfl
    | _ => simp [eventGot] at one

/-- Programs poll windows, and new events come in between: the events that came in since `s`, and
those that the programs got. Whatever else is done meanwhile, the service keeps what it has. -/
inductive PollRun (store : EventStore δ) (s : Env δ) : (arrived delivered : List WindowEvent) →
    Env δ → Prop where
  | refl : PollRun store s [] [] s
  | arrive {arrived delivered t u} (run : PollRun store s arrived delivered t)
      (events : List WindowEvent)
      (more : (store.held u.services).Perm (store.held t.services ++ events)) :
      PollRun store s (arrived ++ events) delivered u
  | poll {arrived delivered t c answer u} (run : PollRun store s arrived delivered t)
      (call : eventPoll c t = (answer, u)) :
      PollRun store s arrived (delivered ++ eventGot c u.memory answer) u

/-- No event is lost, and none is handed over twice. -/
theorem PollRun.conserves {arrived delivered : List WindowEvent}
    (run : PollRun store s arrived delivered t) :
    (store.held s.services ++ arrived).Perm (delivered ++ store.held t.services) := by
  induction run with
  | refl => rw [List.append_nil, List.nil_append]
  | @arrive arrived delivered t u run events more ih =>
    have rest : (delivered ++ (store.held t.services ++ events)).Perm
        (delivered ++ store.held u.services) := more.symm.append_left delivered
    rw [← List.append_assoc] at rest ⊢
    exact (ih.append_right events).trans rest
  | @poll arrived delivered t c answer u run call ih =>
    have polled := polled_eventPoll store c t
    rw [call] at polled
    rw [List.append_assoc]
    exact ih.trans (polled.conserves.append_left delivered)

/-- A poll takes an event from the service exactly if it answers one. Then the event stands in the
caller's memory, its five fields in order, wherever the caller wants it; a caller that names no
room, or none that it may use, has asked nothing of the service, and the program of a window that
is gone finds the event that ends it. No byte outside the event changes. So over any run every event
that was there or came in is delivered once, or the service still keeps it. -/
theorem poll_delivers_once (store : EventStore δ) :
    (∀ (c : SyscallContext) (s : Env δ), ∃ answer t, eventPoll c s = (answer, t) ∧
      Polled store c s answer t ∧
      (answer = .ok 1 ↔ ∃ e, (store.held s.services).Perm (e :: store.held t.services)) ∧
      ∀ x, x < c.arg1.toNat ∨ c.arg1.toNat + 20 ≤ x → t.memory.byte x = s.memory.byte x) ∧
    ∀ s arrived delivered t, PollRun store s arrived delivered t →
      (store.held s.services ++ arrived).Perm (delivered ++ store.held t.services) := by
  refine ⟨fun c s => ?_, fun s arrived delivered t run => run.conserves⟩
  have polled := polled_eventPoll store c s
  exact ⟨_, _, rfl, polled, polled.answer_iff, fun x out => byte_eventPoll out⟩

/-- A program of ring 3 wants an event of the first window at an odd address. -/
def pollFirst : SyscallContext :=
  { number := 13, arg0 := 1, arg1 := 0x1001, arg2 := 0, arg3 := 0, arg4 := 0, fromUser := true }

/-- The window is open, and a key has been pressed. -/
def pressed : Env Desk := ⟨.filled 0, { events := [.ofKey 97], opened := 1 }⟩

/-- The program gets the key, and later another one; then no event is left. -/
theorem poll_delivers_once_pressed :
    ∃ t u, eventPoll pollFirst pressed = (.ok 1, t) ∧ t.memory.event 0x1001 = .ofKey 97 ∧
      PollRun Desk.eventStore pressed [.ofKey 98] [.ofKey 97, .ofKey 98] u ∧
      u.services.events = [] := by
  obtain ⟨polls, runs⟩ := poll_delivers_once Desk.eventStore
  let first : Env Desk := ⟨storeEvent (.ofKey 97) 0x1001 (.filled 0),
    { opened := 1, requests := [.pollEvent 1] }⟩
  have found : first.memory.event 0x1001 = .ofKey 97 := ByteMemory.event_storeEvent _ _ _
  have one_key : PollRun Desk.eventStore pressed [] [.ofKey 97] first := by
    have run : PollRun Desk.eventStore pressed [] ([] ++ eventGot pollFirst first.memory (.ok 1))
      first := PollRun.refl.poll rfl
    have got : eventGot pollFirst first.memory (.ok 1) = [first.memory.event 0x1001] := rfl
    rwa [got, found] at run
  let again : Env Desk := ⟨first.memory, { first.services with events := [.ofKey 98] }⟩
  have more : PollRun Desk.eventStore pressed [.ofKey 98] [.ofKey 97] again :=
    one_key.arrive [.ofKey 98] (.refl _)
  obtain ⟨answer, u, call, polled, -⟩ := polls pollFirst again
  have run := more.poll call
  cases polled with
  | nowhere none => exact absurd none (by decide)
  | refused named outside => exact absurd ⟨by decide, fun _ => by decide⟩ outside
  | missing named room gone => exact absurd rfl gone
  | empty named room live none => cases none
  | @event m d named room live waits =>
    have key : m.event 0x1001 = .ofKey 98 := List.mem_singleton.mp waits
    have got : eventGot pollFirst m (.ok 1) = [m.event 0x1001] := rfl
    rw [got, key] at run
    let keys : List WindowEvent := [.ofKey 97, .ofKey 98]
    have conserved : (keys ++ []).Perm (keys ++ Desk.eventStore.held d) := runs _ _ _ _ run
    have rest : Desk.eventStore.held d = [] :=
      List.nil_perm.mp ((List.perm_append_left_iff _).mp conserved)
    exact ⟨first, _, rfl, found, run, rest⟩

end Handlers
end KernelCore
