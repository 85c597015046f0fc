import KernelCore.Desk
import KernelCore.SyscallHandlers

/-!
# Confinement of system calls

A call from ring 3 works on the lower half of memory and on nothing else. Whatever memory holds at
zero and from the end of the lower half on, the call answers the same, asks the same of the services
and stores the same bytes at the same addresses, all of them in the lower half. Only two calls store
anything, both where their second argument points to.
-/
namespace KernelCore

namespace ByteMemory

theorem read_congr {m m' : ByteMemory} {a length : Nat}
    (h : ∀ i < length, m.byte (a + i) = m'.byte (a + i)) : m.read a length = m'.read a length := by
  unfold read
  apply List.map_congr_left
  intro i hi
  exact h i (List.mem_range.mp hi)

theorem readUntilZero_congr {m m' : ByteMemory} {a limit : Nat}
    (h : ∀ i < limit, m.byte (a + i) = m'.byte (a + i)) :
    m.readUntilZero a limit = m'.readUntilZero a limit := by
  induction limit generalizing a with
  | zero => rfl
  | succ limit ih =>
    have first : m.byte a = m'.byte a := h 0 (Nat.zero_lt_succ limit)
    have rest : m.readUntilZero (a + 1) limit = m'.readUntilZero (a + 1) limit := by
      apply ih
      intro i hi
      simpa only [Nat.add_assoc, Nat.add_comm 1] using h (i + 1) (Nat.succ_lt_succ hi)
    simp only [readUntilZero, first, rest]

/-- Storing a byte and then the bytes after it is one store. -/
theorem store_write_succ (m : ByteMemory) (a n : Nat) (b : UInt8) (content : Nat → UInt8) :
    (m.write a #[b]).store (a + 1) n content =
      m.store a (n + 1) fun i => if i = 0 then b else content (i - 1) := by
  apply congrArg ByteMemory.mk
  funext x
  simp only [write, byte_store]
  by_cases first : x = a
  · have past : ¬ a + 1 ≤ a := Nat.not_succ_le_self a
    simp [first, past]
  · by_cases later : a + 1 ≤ x
    · have hne : x - a ≠ 0 := by omega
      have hsub : x - a - 1 = x - (a + 1) := by omega
      have hsize : ¬ x - a < (#[b] : Array UInt8).size := by simp; omega
      simp only [hne, hsub, hsize, later, if_false, and_false, true_and]
      congr 1
      simp only [eq_iff_iff]
      omega
    · have below : ¬ a ≤ x := by omega
      simp [below, later]

end ByteMemory

/-- A program of ring 3 may name the byte. -/
def UserAddress (a : Nat) : Prop := 0 < a ∧ a < userSpaceEnd

/-- A program of ring 3 cannot tell the memories apart. -/
def SameUserBytes (m m' : ByteMemory) : Prop := ∀ a, UserAddress a → m.byte a = m'.byte a

namespace Handlers

variable {δ : Type} {c : SyscallContext} {a length : Nat} {m m' : ByteMemory}

theorem rangeAllowed_iff : rangeAllowed c a length = true ↔
    a ≠ 0 ∧ a + length < wordLimit ∧ (c.fromUser = true → a + length ≤ userSpaceEnd) := by
  simp only [rangeAllowed, Bool.and_eq_true, Bool.or_eq_true, decide_eq_true_eq,
    Bool.not_eq_true', and_assoc]
  cases c.fromUser <;> simp

theorem userAddress_of_rangeAllowed (ring3 : c.fromUser = true)
    (h : rangeAllowed c a length = true) {i : Nat} (hi : i < length) : UserAddress (a + i) := by
  obtain ⟨nonzero, -, below⟩ := rangeAllowed_iff.mp h
  have := below ring3
  unfold UserAddress
  omega

/-- The bytes of a text that may be read are all in the lower half. -/
theorem readString_congr (ring3 : c.fromUser = true) (same : SameUserBytes m m') (a : Nat) :
    readString c a m = readString c a m' := by
  unfold readString
  split
  · rfl
  · split
    · rfl
    · rename_i allowed
      rw [Bool.not_eq_true, Bool.not_eq_false'] at allowed
      have scanned : m.readUntilZero a (stringLimit c a) =
          m'.readUntilZero a (stringLimit c a) := by
        apply ByteMemory.readUntilZero_congr
        intro i hi
        exact same _ (userAddress_of_rangeAllowed ring3 allowed hi)
      rw [scanned]

variable [Services δ]

/-- However many bytes come from the console, they go to consecutive addresses. -/
theorem readConsole_stores (count a : Nat) (services : δ) :
    ∃ n content services', n ≤ count ∧ ∀ m : ByteMemory,
      readConsole count a ⟨m, services⟩ = (n, ⟨m.store a n content, services'⟩) := by
  induction count generalizing a services with
  | zero => exact ⟨0, fun _ => 0, services, Nat.le_refl 0, fun m => by simp [readConsole]⟩
  | succ count ih =>
    rcases hr : Services.readChar services with ⟨_ | b, services'⟩
    · refine ⟨0, fun _ => 0, services', Nat.zero_le _, fun m => ?_⟩
      simp [readConsole, hr]
    · obtain ⟨n, content, services'', hn, stored⟩ := ih (a + 1) services'
      refine ⟨n + 1, fun i => if i = 0 then b else content (i - 1), services'',
        Nat.succ_le_succ hn, fun m => ?_⟩
      simp only [readConsole, hr, stored, ByteMemory.store_write_succ]

/-- What a call stores: the number of bytes and the bytes, given the call and its answer. -/
abbrev StoreBound := SyscallContext → Except SyscallError UInt64 → Nat → (Nat → UInt8) → Prop

/-- Nothing is stored. -/
def storesNothing : StoreBound := fun _ _ length _ => length = 0

/-- As many bytes as were read, at most those asked for. -/
def storesInput : StoreBound := fun c result length _ =>
  (result = .ok (UInt64.ofNat length) ∧ length ≤ c.arg2.toNat) ∨
    (length = 0 ∧ ∃ e, result = .error e)

/-- One event or nothing. -/
def storesEvent : StoreBound := fun _ _ length content =>
  length = 0 ∨ ∃ e : WindowEvent, length = WindowEvent.size ∧
    content = fun i => e.bytes.toArray.getD i 0

/-- Only two calls store anything. -/
def storeBound : SyscallNumber → StoreBound
  | .read => storesInput
  | .eventPoll => storesEvent
  | _ => storesNothing

/-- To store nothing and to fail is within every bound. -/
theorem storeBound_error (n : SyscallNumber) (c : SyscallContext) (e : SyscallError)
    (content : Nat → UInt8) : storeBound n c (.error e) 0 content := by
  cases n with
  | read => exact .inr ⟨rfl, e, rfl⟩
  | eventPoll => exact .inl rfl
  | _ => exact rfl

/-- What a call from ring 3 does depends on bytes of the lower half only, and all that it stores are
bytes within the bound, at the address in its second argument. -/
def Confines (bound : StoreBound) (handler : SyscallHandler δ) : Prop :=
  ∀ (c : SyscallContext) (m : ByteMemory) (services : δ), c.fromUser = true →
    ∃ result services' length content,
      (∀ m', SameUserBytes m m' → handler c ⟨m', services⟩ =
        (result, ⟨m'.store c.arg1.toNat length content, services'⟩)) ∧
      (∀ i < length, UserAddress (c.arg1.toNat + i)) ∧ bound c result length content

omit [Services δ] in
/-- A handler that leaves memory alone, and that answers and asks the same as long as memory of the
lower half is the same. -/
theorem confines_of_steady {handler : SyscallHandler δ}
    (steady : ∀ {c m m' services}, c.fromUser = true → SameUserBytes m m' →
      handler c ⟨m', services⟩ =
        ((handler c ⟨m, services⟩).1, ⟨m', (handler c ⟨m, services⟩).2.services⟩)) :
    Confines storesNothing handler := by
  intro c m services ring3
  refine ⟨(handler c ⟨m, services⟩).1, (handler c ⟨m, services⟩).2.services, 0, fun _ => 0,
    fun m' same => ?_, nofun, rfl⟩
  rw [ByteMemory.store_zero]
  exact steady ring3 same

theorem exit_confined : Confines storesNothing (exit : SyscallHandler δ) := by
  apply confines_of_steady
  intros
  rfl

theorem getChar_confined : Confines storesNothing (getChar : SyscallHandler δ) := by
  apply confines_of_steady
  intro c m m' services _ _
  simp only [getChar]
  rcases Services.readChar services with ⟨_ | b, services'⟩ <;> rfl

theorem fillRect_confined : Confines storesNothing (fillRect : SyscallHandler δ) := by
  apply confines_of_steady
  intros
  rfl

theorem windowOpen_confined : Confines storesNothing (windowOpen : SyscallHandler δ) := by
  apply confines_of_steady
  intro c m m' services ring3 same
  simp only [windowOpen, readString_congr ring3 same]
  cases if c.arg4 = 0 then .ok "" else readString c c.arg4.toNat m' <;> rfl

theorem drawText_confined : Confines storesNothing (drawText : SyscallHandler δ) := by
  apply confines_of_steady
  intro c m m' services ring3 same
  simp only [drawText, readString_congr ring3 same]
  cases readString c c.arg3.toNat m' <;> rfl

theorem shellExec_confined : Confines storesNothing (shellExec : SyscallHandler δ) := by
  apply confines_of_steady
  intro c m m' services ring3 same
  simp only [shellExec, readString_congr ring3 same]
  cases readString c c.arg0.toNat m' <;> rfl

theorem write_confined : Confines storesNothing (write : SyscallHandler δ) := by
  apply confines_of_steady
  intro c m m' services ring3 same
  unfold write
  split
  · rfl
  · split
    · rfl
    · rename_i allowed
      rw [Bool.not_eq_true, Bool.not_eq_false'] at allowed
      have bytes : m.read c.arg1.toNat c.arg2.toNat = m'.read c.arg1.toNat c.arg2.toNat := by
        apply ByteMemory.read_congr
        intro i hi
        exact same _ (userAddress_of_rangeAllowed ring3 allowed hi)
      rw [bytes]

theorem read_confined : Confines storesInput (read : SyscallHandler δ) := by
  intro c m services ring3
  by_cases input : c.arg0 ≠ 0
  · refine ⟨.error .badFileDescriptor, services, 0, fun _ => 0, fun m' _ => ?_, nofun,
      .inr ⟨rfl, _, rfl⟩⟩
    simp [read, input]
  · cases allowed : rangeAllowed c c.arg1.toNat c.arg2.toNat with
    | false =>
      refine ⟨.error .invalidArgument, services, 0, fun _ => 0, fun m' _ => ?_, nofun,
        .inr ⟨rfl, _, rfl⟩⟩
      simp [read, input, allowed]
    | true =>
      obtain ⟨n, content, services', hn, stored⟩ :=
        readConsole_stores c.arg2.toNat c.arg1.toNat services
      refine ⟨.ok (UInt64.ofNat n), services', n, content, fun m' _ => ?_, fun i hi => ?_,
        .inl ⟨rfl, hn⟩⟩
      · simp [read, input, allowed, stored]
      · exact userAddress_of_rangeAllowed ring3 allowed (Nat.lt_of_lt_of_le hi hn)

theorem eventPoll_confined : Confines storesEvent (eventPoll : SyscallHandler δ) := by
  intro c m services ring3
  by_cases nowhere : c.arg1 = 0
  · refine ⟨.ok 0, services, 0, fun _ => 0, fun m' _ => ?_, nofun, .inl rfl⟩
    simp [eventPoll, nowhere]
  · cases allowed : rangeAllowed c c.arg1.toNat WindowEvent.size with
    | false =>
      refine ⟨.error .invalidArgument, services, 0, fun _ => 0, fun m' _ => ?_, nofun, .inl rfl⟩
      simp [eventPoll, nowhere, allowed]
    | true =>
      have room {i : Nat} (hi : i < WindowEvent.size) : UserAddress (c.arg1.toNat + i) :=
        userAddress_of_rangeAllowed ring3 allowed hi
      rcases hp : Services.pollEvent c.arg0 services with ⟨e | _ | _, services'⟩
      · refine ⟨.ok 1, services', WindowEvent.size, _, fun m' _ => ?_, fun i => room,
          .inr ⟨e, rfl, rfl⟩⟩
        simp [eventPoll, nowhere, allowed, hp, storeEvent, ByteMemory.write]
      · refine ⟨.ok 0, services', 0, fun _ => 0, fun m' _ => ?_, nofun, .inl rfl⟩
        simp [eventPoll, nowhere, allowed, hp]
      · refine ⟨.ok 0, services', WindowEvent.size, _, fun m' _ => ?_, fun i => room,
          .inr ⟨.quit, rfl, rfl⟩⟩
        simp [eventPoll, nowhere, allowed, hp, storeEvent, ByteMemory.write]

/-- Every handler keeps to the bound of its call. -/
theorem all_confined : ∀ entry ∈ all (δ := δ), Confines (storeBound entry.1) entry.2 := by
  simp only [all, List.forall_mem_cons]
  exact ⟨exit_confined, read_confined, write_confined, windowOpen_confined, drawText_confined,
    fillRect_confined, eventPoll_confined, shellExec_confined, getChar_confined,
    List.forall_mem_nil _⟩

omit [Services δ] in
/-- A handler takes the place of the one before, and leaves all other numbers alone. -/
theorem handler?_register (t : SyscallTable δ) (number k : Nat) (handler : SyscallHandler δ) :
    (t.register number handler).2.handler? k =
      if number = k ∧ k < maxSyscalls then some handler else t.handler? k := by
  by_cases fits : number < maxSyscalls
  · simp only [SyscallTable.register, dif_pos fits, SyscallTable.handler?, Fin.mk.injEq]
    by_cases same : number = k
    · subst same
      simp [fits]
    · simp [same, Ne.symm same]
  · have other : ¬ (number = k ∧ k < maxSyscalls) := fun h => fits (h.1 ▸ h.2)
    rw [SyscallTable.register, dif_neg fits, if_neg other]

omit [Services δ] in
/-- A handler found in the table was there before or is among those installed. -/
theorem handler?_registerEach {entries : List (SyscallNumber × SyscallHandler δ)}
    {t : SyscallTable δ} {k : Nat} {found : SyscallHandler δ}
    (h : (registerEach entries t).2.handler? k = some found) :
    (∃ number, (number, found) ∈ entries ∧ number.value = k) ∨ t.handler? k = some found := by
  induction entries generalizing t with
  | nil => exact .inr h
  | cons entry rest ih =>
    obtain ⟨number, handler⟩ := entry
    have installed (h : (t.register number.value handler).2.handler? k = some found) :
        (∃ number', (number', found) ∈ (number, handler) :: rest ∧ number'.value = k) ∨
          t.handler? k = some found := by
      rw [handler?_register] at h
      split at h
      · rename_i here
        cases h
        exact .inl ⟨number, List.mem_cons_self, here.1⟩
      · exact .inr h
    rcases hreg : t.register number.value handler with ⟨_ | _, t'⟩
    · rw [registerEach, hreg] at h
      rw [hreg] at installed
      exact installed h
    · rw [registerEach, hreg] at h
      rw [hreg] at installed
      rcases ih h with ⟨number', mem, value⟩ | early
      · exact .inl ⟨number', List.mem_cons_of_mem _ mem, value⟩
      · exact installed early

end Handlers

namespace SyscallTable

open Handlers

variable {δ : Type} [Services δ]

theorem run_of_none {t : SyscallTable δ} {c : SyscallContext} (services : δ)
    (h : t.handler? c.number.toNat = none) :
    ∃ services', ∀ m, t.run c ⟨m, services⟩ = (.error .notImplemented, ⟨m, services'⟩) := by
  simp only [run, h, noteTo]
  exact ⟨_, fun m => rfl⟩

/-- Whatever number the call has, with the standard handlers it keeps to the bound of that number. -/
theorem run_confined {t : SyscallTable δ} (standard : (registerEach all .empty).2 = t)
    (c : SyscallContext) (m : ByteMemory) (services : δ) (ring3 : c.fromUser = true) :
    ∃ result services' length content,
      (∀ m', SameUserBytes m m' → t.run c ⟨m', services⟩ =
        (result, ⟨m'.store c.arg1.toNat length content, services'⟩)) ∧
      (∀ i < length, UserAddress (c.arg1.toNat + i)) ∧
      storeBound c.name c result length content := by
  cases hh : t.handler? c.number.toNat with
  | none =>
    obtain ⟨services', steady⟩ := run_of_none services hh
    refine ⟨.error .notImplemented, services', 0, fun _ => 0, fun m' _ => ?_, nofun,
      storeBound_error _ _ _ _⟩
    rw [ByteMemory.store_zero]
    exact steady m'
  | some handler =>
    rw [← standard] at hh
    obtain ⟨number, mem, value⟩ | before := handler?_registerEach hh
    · have known : c.name = number := by
        rw [SyscallContext.name, ← value, SyscallNumber.ofValue_value]
      simpa only [run, ← standard, hh, known] using all_confined _ mem c m services ring3
    · simp [handler?, empty] at before

theorem handle_of_run {t : SyscallTable δ} {f : Trapframe} {env : Env δ}
    {result : Except SyscallError UInt64} {m : ByteMemory} {services : δ}
    (ran : t.run (.ofFrame f) env = (result, ⟨m, services⟩)) :
    t.handle f env = ({ f with rax := resultWord result }, ⟨m, Journal.note
      (.trace ("syscall: " ++ (SyscallContext.ofFrame f).text result)) services⟩) := by
  simp only [handle, ran, noteTo]

/-- A call from ring 3 with the standard handlers, whatever its number and its arguments are and
whatever the services answer. What it does is the same for all memories with the same bytes in the
lower half, and all that it stores lies there: as many bytes as were read for a call that reads
input, an event or nothing for a call that polls a window, and nothing for any other. -/
theorem handle_confined (booted : δ) (f : Trapframe) (ring3 : f.ring = 3) (m : ByteMemory)
    (services : δ) :
    (registerAll .empty booted).1 = .ok () ∧
    ∃ result services' length content,
      (∀ m', SameUserBytes m m' → (registerAll .empty booted).2.1.handle f ⟨m', services⟩ =
        ({ f with rax := resultWord result },
          ⟨m'.store f.rcx.toNat length content, services'⟩)) ∧
      (∀ i < length, UserAddress (f.rcx.toNat + i)) ∧
      storeBound (.ofValue f.rax.toNat) (.ofFrame f) result length content := by
  have fromUser : f.fromUser = true := beq_iff_eq.mpr ring3
  obtain ⟨result, services', length, content, ran, room, bound⟩ :=
    run_confined rfl (.ofFrame f) m services fromUser
  exact ⟨rfl, result, _, length, content, fun m' same => handle_of_run (ran m' same), room, bound⟩

/-- A program of ring 3 that reads four bytes into the first page. -/
def readFrame : Trapframe := { rax := 3, rbx := 0, rcx := 0x1000, rdx := 4, cs := 0x1b }

def typed : Desk := { input := [104, 105] }

theorem handle_confined_read :
    readFrame.ring = 3 ∧ ∃ result services' length content,
      (∀ m', SameUserBytes (.filled 0) m' →
        (registerAll .empty typed).2.1.handle readFrame ⟨m', typed⟩ =
          ({ readFrame with rax := resultWord result },
            ⟨m'.store 0x1000 length content, services'⟩)) ∧
      (∀ i < length, UserAddress (0x1000 + i)) ∧
      storeBound .read (.ofFrame readFrame) result length content :=
  ⟨rfl, (handle_confined typed readFrame rfl (.filled 0) typed).2⟩

end SyscallTable
end KernelCore
