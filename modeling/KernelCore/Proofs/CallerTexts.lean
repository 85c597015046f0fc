import KernelCore.Proofs.SyscallConfinement

/-!
# Texts of callers

A caller names a text by its address. The text goes up to the first zero byte or as far as a text
may go, and it must be UTF-8. Nothing behind its end is looked at. A text that is too long is cut
after a fixed number of bytes, wherever that is: if a character goes across the cut, what is left is
no text, and the call is refused.
-/
namespace KernelCore

namespace ByteMemory

variable {m : ByteMemory} {a limit n : Nat}

/-- The first zero among the `limit` bytes from `a` on comes after `n` bytes, or there is none and
`n` is the limit. -/
structure TextEnds (m : ByteMemory) (a limit n : Nat) : Prop where
  le_limit : n ≤ limit
  nonzero : ∀ i < n, m.byte (a + i) ≠ 0
  stops : n < limit → m.byte (a + n) = 0

theorem read_succ (m : ByteMemory) (a n : Nat) :
    m.read a (n + 1) = m.byte a :: m.read (a + 1) n := by
  simp [read, List.range_succ_eq_map, Nat.add_assoc, Nat.add_comm 1]

theorem textEnds_zero (first : m.byte a = 0) : m.TextEnds a (limit + 1) 0 :=
  ⟨Nat.zero_le _, nofun, fun _ => first⟩

theorem TextEnds.succ (first : m.byte a ≠ 0) (rest : m.TextEnds (a + 1) limit n) :
    m.TextEnds a (limit + 1) (n + 1) := by
  refine ⟨Nat.succ_le_succ rest.le_limit, fun i hi => ?_, fun before => ?_⟩
  · cases i with
    | zero => exact first
    | succ i =>
      have next := rest.nonzero i (Nat.lt_of_succ_lt_succ hi)
      rwa [Nat.add_assoc, Nat.add_comm 1] at next
  · have stop := rest.stops (Nat.lt_of_succ_lt_succ before)
    rwa [Nat.add_assoc, Nat.add_comm 1] at stop

theorem TextEnds.unique {n' : Nat} (ends : m.TextEnds a limit n) (ends' : m.TextEnds a limit n') :
    n = n' := by
  have one_way {k k' : Nat} (ends : m.TextEnds a limit k) (ends' : m.TextEnds a limit k') :
      ¬ k < k' := fun before =>
    ends'.nonzero k before (ends.stops (Nat.lt_of_lt_of_le before ends'.le_limit))
  have := one_way ends ends'
  have := one_way ends' ends
  omega

/-- The text ends somewhere, and what is read of it are the bytes before its end. -/
theorem exists_textEnds (m : ByteMemory) (a limit : Nat) :
    ∃ n, m.TextEnds a limit n ∧ m.readUntilZero a limit = m.read a n := by
  induction limit generalizing a with
  | zero => exact ⟨0, ⟨Nat.le_refl 0, nofun, nofun⟩, rfl⟩
  | succ limit ih =>
    by_cases first : m.byte a = 0
    · exact ⟨0, textEnds_zero first, by simp [readUntilZero, first, read]⟩
    · obtain ⟨n, ends, bytes⟩ := ih (a + 1)
      refine ⟨n + 1, ends.succ first, ?_⟩
      rw [readUntilZero, if_neg first, bytes, read_succ]

theorem TextEnds.readUntilZero_eq (ends : m.TextEnds a limit n) :
    m.readUntilZero a limit = m.read a n := by
  obtain ⟨n', ends', bytes⟩ := m.exists_textEnds a limit
  rw [bytes, ends'.unique ends]

/-- Reads a byte and keeps its address. -/
def look (m : ByteMemory) (a : Nat) : StateM (List Nat) UInt8 :=
  fun seen => (m.byte a, seen ++ [a])

/-- Looks for the first zero from `a` on, byte by byte. The answer is the number of bytes before it,
or the limit if there is none. -/
def lookForZero (m : ByteMemory) : (a limit : Nat) → StateM (List Nat) Nat
  | _, 0 => return 0
  | a, limit + 1 => do
    if (← m.look a) = 0 then return 0
    else return (← m.lookForZero (a + 1) limit) + 1

/-- Looks at the `length` bytes from `a` on. -/
def lookOver (m : ByteMemory) : (a length : Nat) → StateM (List Nat) (List UInt8)
  | _, 0 => return []
  | a, length + 1 => do
    let b ← m.look a
    return b :: (← m.lookOver (a + 1) length)

@[simp] theorem run_look (m : ByteMemory) (a : Nat) (seen : List Nat) :
    (m.look a).run seen = pure (m.byte a, seen ++ [a]) := rfl

/-- The last byte looked at is the zero, if there is one. -/
theorem run_lookForZero (ends : m.TextEnds a limit n) (seen : List Nat) :
    (m.lookForZero a limit).run seen = pure (n, seen ++ List.range' a (min (n + 1) limit)) := by
  induction limit generalizing a n seen with
  | zero =>
    obtain rfl := Nat.le_zero.mp ends.le_limit
    simp [lookForZero]
  | succ limit ih =>
    by_cases first : m.byte a = 0
    · obtain rfl := ends.unique (textEnds_zero first)
      simp [lookForZero, first]
    · obtain ⟨n', rest, -⟩ := m.exists_textEnds (a + 1) limit
      obtain rfl := ends.unique (rest.succ first)
      have next := ih rest (seen ++ [a])
      simp [lookForZero, first, next, Nat.add_min_add_right, List.range'_succ]

theorem run_lookOver (m : ByteMemory) (a length : Nat) (seen : List Nat) :
    (m.lookOver a length).run seen = pure (m.read a length, seen ++ List.range' a length) := by
  induction length generalizing a seen with
  | zero => simp [lookOver, read]
  | succ length ih =>
    have rest := ih (a + 1) (seen ++ [a])
    simp [lookOver, rest, read_succ, List.range'_succ]

theorem TextEnds.congr {m' : ByteMemory} (ends : m.TextEnds a limit n)
    (same : ∀ x, a ≤ x → x ≤ a + n → x < a + limit → m'.byte x = m.byte x) :
    m'.TextEnds a limit n := by
  refine ⟨ends.le_limit, fun i hi => ?_, fun before => ?_⟩
  · have le := ends.le_limit
    rw [same (a + i) (by omega) (by omega) (by omega)]
    exact ends.nonzero i hi
  · rw [same (a + n) (by omega) (by omega) (by omega)]
    exact ends.stops before

end ByteMemory

/-- The first `n` bytes of a text are a text exactly if a character ends there. -/
theorem toByteArray_eq_take_iff {s text : String} {n : Nat} (le : n ≤ text.utf8ByteSize) :
    s.toByteArray = (text.toByteArray.data.toList.take n).toByteArray ↔
      s.utf8ByteSize = n ∧ ∃ rest, text = s ++ rest := by
  have cut : (text.toByteArray.data.toList.take n).toByteArray = text.toByteArray.extract 0 n := by
    apply ByteArray.ext
    rw [List.data_toByteArray, ByteArray.data_extract, ← Array.toList_inj]
    simp
  rw [cut]
  constructor
  · intro first
    have size : s.utf8ByteSize = n := by
      rw [← String.size_toByteArray, first, ByteArray.size_extract, String.size_toByteArray]
      omega
    have boundary : (⟨n⟩ : String.Pos.Raw).IsValid text := by
      rw [String.Pos.Raw.isValid_iff_isValidUTF8_extract_zero]
      exact ⟨le, first ▸ s.isValidUTF8⟩
    refine ⟨size, ⟨_, boundary.isValidUTF8_extract_utf8ByteSize⟩, ?_⟩
    rw [← String.toByteArray_inj, String.toByteArray_append, first,
      ByteArray.extract_append_extract, Nat.zero_min, Nat.max_eq_right le,
      ← String.size_toByteArray, ByteArray.extract_zero_size]
  · rintro ⟨rfl, rest, rfl⟩
    rw [String.toByteArray_append, ByteArray.extract_append_eq_left String.size_toByteArray.symm]

namespace Handlers

variable {c : SyscallContext} {a limit n : Nat} {m : ByteMemory} {s text : String}

/-- A text of at most `limit` bytes may begin at `a`. -/
structure MayBegin (c : SyscallContext) (a limit : Nat) : Prop where
  ne_zero : a ≠ 0
  below_end : c.fromUser = true → a < userSpaceEnd
  no_wrap : a + limit < wordLimit

theorem mayBegin_iff : MayBegin c a (stringLimit c a) ↔
    ¬ (c.fromUser && userSpaceEnd ≤ a) = true ∧ rangeAllowed c a (stringLimit c a) = true := by
  have room : c.fromUser = true → a < userSpaceEnd → a + stringLimit c a ≤ userSpaceEnd := by
    intro ring3 below
    rw [stringLimit, if_pos ring3]
    omega
  rw [rangeAllowed_iff, Bool.and_eq_true, decide_eq_true_eq, not_and, Nat.not_le]
  constructor
  · rintro ⟨ne_zero, below, fits⟩
    exact ⟨below, ne_zero, fits, fun ring3 => room ring3 (below ring3)⟩
  · rintro ⟨below, ne_zero, fits, -⟩
    exact ⟨ne_zero, below, fits⟩

instance : Decidable (MayBegin c a limit) :=
  decidable_of_iff (a ≠ 0 ∧ (c.fromUser = true → a < userSpaceEnd) ∧ a + limit < wordLimit)
    ⟨fun h => ⟨h.1, h.2.1, h.2.2⟩, fun h => ⟨h.ne_zero, h.below_end, h.no_wrap⟩⟩

/-- Both checks of an address, one after the other. -/
theorem checked_eq {α : Type} (c : SyscallContext) (a : Nat) (refused accepted : α) :
    (if c.fromUser && userSpaceEnd ≤ a then refused
      else if !rangeAllowed c a (stringLimit c a) then refused else accepted) =
      if MayBegin c a (stringLimit c a) then accepted else refused := by
  by_cases begins : MayBegin c a (stringLimit c a)
  · obtain ⟨below, allowed⟩ := mayBegin_iff.mp begins
    rw [if_neg below, allowed, if_pos begins]
    rfl
  · rw [if_neg begins]
    split
    · rfl
    · rename_i below
      rw [mayBegin_iff] at begins
      rw [if_pos]
      simpa using fun allowed => begins ⟨below, allowed⟩

/-- What bytes say, if they are a text. -/
def textOf (bytes : List UInt8) : Except SyscallError String :=
  match String.fromUTF8? bytes.toByteArray with
  | some text => .ok text
  | none => .error .invalidArgument

theorem textOf_eq_ok {bytes : List UInt8} :
    textOf bytes = .ok s ↔ s.toByteArray = bytes.toByteArray := by
  rw [textOf, String.fromUTF8?]
  by_cases valid : bytes.toByteArray.IsValidUTF8
  · rw [dif_pos valid, Except.ok.injEq, ← String.toByteArray_inj]
    exact eq_comm
  · rw [dif_neg valid]
    refine ⟨nofun, fun same => ?_⟩
    rw [← same] at valid
    exact absurd s.isValidUTF8 valid

theorem exists_textOf_eq_ok {bytes : List UInt8} :
    (∃ s, textOf bytes = .ok s) ↔ bytes.toByteArray.IsValidUTF8 := by
  constructor
  · rintro ⟨s, said⟩
    exact textOf_eq_ok.mp said ▸ s.isValidUTF8
  · exact fun valid => ⟨⟨_, valid⟩, textOf_eq_ok.mpr rfl⟩

theorem readString_eq (c : SyscallContext) (a : Nat) (m : ByteMemory) :
    readString c a m = if MayBegin c a (stringLimit c a)
      then textOf (m.readUntilZero a (stringLimit c a)) else .error .invalidArgument :=
  checked_eq c a _ _

/-- There is one way to be refused. -/
theorem readString_ok_or_error (c : SyscallContext) (a : Nat) (m : ByteMemory) :
    (∃ s, readString c a m = .ok s) ∨ readString c a m = .error .invalidArgument := by
  rw [readString_eq]
  split
  · rw [textOf]
    split
    · exact .inl ⟨_, rfl⟩
    · exact .inr rfl
  · exact .inr rfl

/-- The text at `a`, read byte by byte: once to find its end, and once more to decode it. -/
def lookAtString (c : SyscallContext) (a : Nat) (m : ByteMemory) :
    StateM (List Nat) (Except SyscallError String) :=
  if c.fromUser && userSpaceEnd ≤ a then return .error .invalidArgument
  else if !rangeAllowed c a (stringLimit c a) then return .error .invalidArgument
  else do
    let length ← m.lookForZero a (stringLimit c a)
    return textOf (← m.lookOver a length)

/-- Looking at the bytes one by one gives the same text. All bytes looked at are before its end, or
are the zero there. -/
theorem run_lookAtString (ends : m.TextEnds a (stringLimit c a) n) :
    ∃ seen, (lookAtString c a m).run [] = pure (readString c a m, seen) ∧
      ∀ x ∈ seen, a ≤ x ∧ x ≤ a + n ∧ x < a + stringLimit c a := by
  have le := ends.le_limit
  rw [readString_eq, lookAtString, checked_eq]
  split
  · refine ⟨List.range' a (min (n + 1) (stringLimit c a)) ++ List.range' a n, ?_, fun x seen => ?_⟩
    · simp [ByteMemory.run_lookForZero ends, ByteMemory.run_lookOver, ends.readUntilZero_eq]
    · rw [List.mem_append, List.mem_range'_1, List.mem_range'_1] at seen
      omega
  · exact ⟨[], rfl, fun x seen => absurd seen List.not_mem_nil⟩

/-- A text is read exactly if it may begin at the address and its bytes, those up to the first zero
or the limit, are UTF-8; it is then made of these bytes. Anything else is an invalid argument. No
byte behind the zero and none at the limit is looked at, so the answer does not depend on them. -/
theorem readString_reads (c : SyscallContext) (a : Nat) (m : ByteMemory) :
    ∃ limit n, limit = (if c.fromUser then min 256 (userSpaceEnd - a) else 256) ∧
      m.TextEnds a limit n ∧
      ((∃ s, readString c a m = .ok s) ↔
        MayBegin c a limit ∧ (m.read a n).toByteArray.IsValidUTF8) ∧
      (∀ s, readString c a m = .ok s → s.toByteArray = (m.read a n).toByteArray) ∧
      (¬ (MayBegin c a limit ∧ (m.read a n).toByteArray.IsValidUTF8) →
        readString c a m = .error .invalidArgument) ∧
      (∃ seen, (lookAtString c a m).run [] = pure (readString c a m, seen) ∧
        ∀ x ∈ seen, a ≤ x ∧ x ≤ a + n ∧ x < a + limit) ∧
      ∀ m' : ByteMemory, (∀ x, a ≤ x → x ≤ a + n → x < a + limit → m'.byte x = m.byte x) →
        readString c a m' = readString c a m := by
  obtain ⟨n, ends, bytes⟩ := m.exists_textEnds a (stringLimit c a)
  have served : (∃ s, readString c a m = .ok s) ↔
      MayBegin c a (stringLimit c a) ∧ (m.read a n).toByteArray.IsValidUTF8 := by
    rw [readString_eq, bytes, ← exists_textOf_eq_ok]
    split
    · rename_i begins
      exact ⟨fun said => ⟨begins, said⟩, And.right⟩
    · rename_i refused
      exact ⟨nofun, fun accepted => absurd accepted.1 refused⟩
  refine ⟨stringLimit c a, n, rfl, ends, served, fun s said => ?_, fun refused => ?_,
    run_lookAtString ends, fun m' same => ?_⟩
  · rw [readString_eq, bytes] at said
    split at said
    · exact textOf_eq_ok.mp said
    · cases said
  · exact (readString_ok_or_error c a m).resolve_left fun said => refused (served.mp said)
  · have ends' := ends.congr same
    have le := ends.le_limit
    rw [readString_eq, readString_eq, ends'.readUntilZero_eq, ends.readUntilZero_eq,
      ByteMemory.read_congr fun i hi => same (a + i) (by omega) (by omega) (by omega)]

/-- A text without zeros that is longer than texts may be lies at `a`, all of it where the caller
may name memory. -/
structure LongText (c : SyscallContext) (a : Nat) (m : ByteMemory) (text : String) : Prop where
  ne_zero : a ≠ 0
  within : a + text.utf8ByteSize ≤ if c.fromUser then userSpaceEnd else wordLimit
  stored : m.read a text.utf8ByteSize = text.toByteArray.data.toList
  no_zero : 0 ∉ text.toByteArray.data.toList
  long : 256 < text.utf8ByteSize

namespace LongText

theorem stringLimit_eq (h : LongText c a m text) : stringLimit c a = 256 := by
  have within := h.within
  have long := h.long
  rw [stringLimit, maxStringLength]
  split
  · rename_i ring3
    rw [if_pos ring3] at within
    omega
  · rfl

theorem mayBegin (h : LongText c a m text) : MayBegin c a 256 := by
  have within := h.within
  have long := h.long
  refine ⟨h.ne_zero, fun ring3 => ?_, ?_⟩
  · rw [if_pos ring3] at within
    omega
  · have : userSpaceEnd < wordLimit := by decide
    split at within <;> omega

theorem textEnds (h : LongText c a m text) : m.TextEnds a 256 256 := by
  refine ⟨Nat.le_refl _, fun i hi zero => ?_, fun before => absurd before (Nat.lt_irrefl _)⟩
  apply h.no_zero
  rw [← h.stored, ByteMemory.read, List.mem_map]
  have inside : i < text.utf8ByteSize := Nat.lt_trans hi h.long
  exact ⟨i, List.mem_range.mpr inside, zero⟩

theorem read_eq (h : LongText c a m text) :
    m.read a 256 = text.toByteArray.data.toList.take 256 := by
  rw [← h.stored, ByteMemory.read, ByteMemory.read, ← List.map_take, List.take_range,
    Nat.min_eq_left (Nat.le_of_lt h.long)]

theorem readString_eq_ok (h : LongText c a m text) :
    readString c a m = .ok s ↔ s.utf8ByteSize = 256 ∧ ∃ rest, text = s ++ rest := by
  rw [readString_eq, h.stringLimit_eq, if_pos h.mayBegin, h.textEnds.readUntilZero_eq, h.read_eq,
    textOf_eq_ok, toByteArray_eq_take_iff (Nat.le_of_lt h.long)]

/-- If a character goes across the cut, the call is refused. -/
theorem readString_error (h : LongText c a m text)
    (across : ¬ ∃ s rest, text = s ++ rest ∧ s.utf8ByteSize = 256) :
    readString c a m = .error .invalidArgument := by
  refine (readString_ok_or_error c a m).resolve_left ?_
  rintro ⟨s, served⟩
  obtain ⟨size, rest, cut⟩ := h.readString_eq_ok.mp served
  exact across ⟨s, rest, cut, size⟩

end LongText

/-- A text that is too long is cut after 256 bytes, if a character ends there: what is read are
these bytes. Otherwise nothing is read, and the call is refused. -/
theorem long_text_read_iff (h : LongText c a m text) :
    ((∃ s, readString c a m = .ok s ∧ s.utf8ByteSize ≤ 256 ∧ ∃ rest, text = s ++ rest) ↔
      ∃ s rest, text = s ++ rest ∧ s.utf8ByteSize = 256) ∧
    (∀ s rest, text = s ++ rest → s.utf8ByteSize = 256 → readString c a m = .ok s) ∧
    ((¬ ∃ s rest, text = s ++ rest ∧ s.utf8ByteSize = 256) →
      readString c a m = .error .invalidArgument) := by
  refine ⟨⟨?_, ?_⟩, fun s rest cut size => h.readString_eq_ok.mpr ⟨size, rest, cut⟩,
    h.readString_error⟩
  · rintro ⟨s, served, -⟩
    obtain ⟨size, rest, cut⟩ := h.readString_eq_ok.mp served
    exact ⟨s, rest, cut, size⟩
  · rintro ⟨s, rest, cut, size⟩
    exact ⟨s, h.readString_eq_ok.mpr ⟨size, rest, cut⟩, Nat.le_of_eq size, rest, cut⟩

/-- A program of ring 3 has a command line run. -/
def runLine : SyscallContext :=
  { number := 14, arg0 := 0x200000000000, arg1 := 0, arg2 := 0, arg3 := 0, arg4 := 0,
    fromUser := true }

/-- The line stands where the program says. -/
def line (text : String) : ByteMemory :=
  (ByteMemory.filled 0).write 0x200000000000 text.toByteArray.data

def letters (count : Nat) : String := String.ofList (List.replicate count 'x')

theorem longText_line (text : String) (size : text.utf8ByteSize = 257)
    (no_zero : 0 ∉ text.toByteArray.data.toList) :
    LongText runLine 0x200000000000 (line text) text := by
  refine ⟨by decide, ?_, ?_, no_zero, by omega⟩
  · change 0x200000000000 + text.utf8ByteSize ≤ 0x800000000000
    omega
  · exact (ByteMemory.filled 0).read_write_self 0x200000000000 text.toByteArray.data

theorem long_text_read_iff_letters :
    LongText runLine 0x200000000000 (line ((letters 254).push 'é' ++ "x"))
        ((letters 254).push 'é' ++ "x") ∧
      readString runLine 0x200000000000 (line ((letters 254).push 'é' ++ "x")) =
        .ok ((letters 254).push 'é') := by
  have h := longText_line ((letters 254).push 'é' ++ "x") (by decide +kernel) (by decide +kernel)
  exact ⟨h, (long_text_read_iff h).2.1 _ _ rfl (by decide +kernel)⟩

/-- The character of two bytes goes across the cut. -/
theorem long_text_refused :
    LongText runLine 0x200000000000 (line ((letters 255).push 'é')) ((letters 255).push 'é') ∧
      readString runLine 0x200000000000 (line ((letters 255).push 'é')) =
        .error .invalidArgument := by
  have h := longText_line ((letters 255).push 'é') (by decide +kernel) (by decide +kernel)
  refine ⟨h, h.readString_error ?_⟩
  rintro ⟨s, rest, cut, size⟩
  have boundary : s.rawEndPos.IsValid ((letters 255).push 'é') :=
    String.Pos.Raw.isValid_iff_exists_append.mpr ⟨s, rest, cut, rfl⟩
  have before : (letters 255).utf8ByteSize = 255 := by decide +kernel
  rcases String.Pos.Raw.isValid_push.mp boundary with inside | last
  · have le := String.Pos.Raw.le_iff.mp inside.le_rawEndPos
    rw [String.byteIdx_rawEndPos, String.byteIdx_rawEndPos] at le
    omega
  · have place := congrArg String.Pos.Raw.byteIdx last
    rw [String.Pos.Raw.byteIdx_add_char, String.byteIdx_rawEndPos, String.byteIdx_rawEndPos,
      show 'é'.utf8Size = 2 from rfl] at place
    omega

end Handlers
end KernelCore
