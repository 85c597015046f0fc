import KernelCore.LineMasks
import Mathlib.Logic.Basic

/-!
# Enabled lines

Every line has one bit in the masks. Enabling a line clears its bit, and for a line of the second
controller also the bit of the cascade; nothing sets a bit again. So a bit is clear in the end
exactly if some line of the list clears it, and two lists with the same lines have the same masks.
-/
namespace KernelCore.LineMasks

variable {mask a b place : UInt8} {i j : Nat}

/-! ### One mask -/

theorem toBitVec_one_shiftLeft (small : place < 8) :
    (1 <<< place : UInt8).toBitVec = BitVec.twoPow 8 place.toNat := by
  have amount : place.toNat % 8 = place.toNat := Nat.mod_eq_of_lt small
  rw [BitVec.twoPow_eq, UInt8.toBitVec_shiftLeft]
  simp [amount]

/-- Clearing the bit of one place leaves the others as they are. -/
theorem testBit_clear (small : place < 8) (inside : i < 8) :
    (mask &&& ~~~(1 <<< place)).toNat.testBit i = false ↔
      mask.toNat.testBit i = false ∨ place.toNat = i := by
  have bits : (mask &&& ~~~(1 <<< place)).toNat.testBit i =
      (mask.toNat.testBit i && !decide (place.toNat = i)) := by
    change (mask &&& ~~~(1 <<< place)).toBitVec.getLsbD i = _
    rw [UInt8.toBitVec_and, UInt8.toBitVec_not, toBitVec_one_shiftLeft small, BitVec.getLsbD_and,
      BitVec.getLsbD_not, BitVec.getLsbD_twoPow, decide_eq_true inside,
      decide_eq_true (show place.toNat < 8 from small)]
    rfl
  rw [bits, Bool.and_eq_false_iff, Bool.not_eq_false', decide_eq_true_iff]

/-- A mask is known by its eight bits. -/
theorem eq_of_testBit (same : ∀ i < 8, (a.toNat.testBit i = false ↔ b.toNat.testBit i = false)) :
    a = b := by
  refine UInt8.eq_of_toBitVec_eq (BitVec.eq_of_getLsbD_eq fun i inside => ?_)
  have clear := same i inside
  rw [← Bool.not_eq_true, ← Bool.not_eq_true, not_iff_not] at clear
  exact Bool.eq_iff_iff.mpr clear

/-! ### One line -/

/-- A line belongs to the first controller, to the second one or to none. -/
theorem enable_cases (m : LineMasks) (line : UInt8) :
    (line.toNat < 8 ∧ m.enable line = { m with primary := m.primary &&& ~~~(1 <<< line) }) ∨
    (8 ≤ line.toNat ∧ line.toNat ≤ 15 ∧
      m.enable line = ⟨m.primary &&& ~~~(1 <<< cascadeLine),
        m.secondary &&& ~~~(1 <<< (line - 8))⟩) ∨
    (15 < line.toNat ∧ m.enable line = m) := by
  have below (bound : UInt8) : line < bound ↔ line.toNat < bound.toNat := Iff.rfl
  have first : line < 8 ↔ line.toNat < 8 := below 8
  have second : line < 16 ↔ line.toNat < 16 := below 16
  rw [enable]
  split
  case isTrue here => exact .inl ⟨first.mp here, rfl⟩
  case isFalse past =>
    rw [first] at past
    split
    case isTrue here =>
      rw [second] at here
      exact .inr (.inl ⟨by omega, by omega, rfl⟩)
    case isFalse none =>
      rw [second] at none
      exact .inr (.inr ⟨by omega, rfl⟩)

/-- Enabling `line` clears bit `i` of the first mask. -/
def ClearsPrimary (line : UInt8) (i : Nat) : Prop :=
  line.toNat = i ∨ i = cascadeLine.toNat ∧ 8 ≤ line.toNat ∧ line.toNat ≤ 15

theorem testBit_primary_enable (m : LineMasks) (line : UInt8) (inside : i < 8) :
    (m.enable line).primary.toNat.testBit i = false ↔
      m.primary.toNat.testBit i = false ∨ ClearsPrimary line i := by
  rw [ClearsPrimary]
  obtain ⟨first, enabled⟩ | ⟨from8, to15, enabled⟩ | ⟨past, enabled⟩ := m.enable_cases line
  · rw [enabled, testBit_clear first inside]
    exact or_congr_right (by omega)
  · rw [enabled, testBit_clear (by decide) inside]
    exact or_congr_right (by omega)
  · rw [enabled]
    exact ⟨.inl, fun clear => clear.resolve_right (by omega)⟩

theorem testBit_secondary_enable (m : LineMasks) (line : UInt8) (inside : j < 8) :
    (m.enable line).secondary.toNat.testBit j = false ↔
      m.secondary.toNat.testBit j = false ∨ line.toNat = 8 + j := by
  obtain ⟨first, enabled⟩ | ⟨from8, to15, enabled⟩ | ⟨past, enabled⟩ := m.enable_cases line
  · rw [enabled]
    exact ⟨.inl, fun clear => clear.resolve_right (by omega)⟩
  · have place : (line - 8).toNat = line.toNat - 8 := UInt8.toNat_sub_of_le _ _ from8
    have small : line - 8 < 8 := show (line - 8).toNat < 8 by omega
    rw [enabled, testBit_clear small inside, place]
    exact or_congr_right (by omega)
  · rw [enabled]
    exact ⟨.inl, fun clear => clear.resolve_right (by omega)⟩

/-! ### All lines -/

/-- A bit that every line either clears or leaves alone is clear in the end if it was clear before
or one of the lines clears it. -/
theorem foldl_enable_iff (bit : LineMasks → Bool) {Clears : UInt8 → Prop}
    (step : ∀ m line, bit (m.enable line) = false ↔ bit m = false ∨ Clears line)
    (lines : List UInt8) (m : LineMasks) :
    bit (lines.foldl enable m) = false ↔ bit m = false ∨ ∃ line ∈ lines, Clears line := by
  induction lines generalizing m with
  | nil => simp
  | cons line lines ih =>
    rw [List.foldl_cons, ih, step, or_assoc]
    simp only [List.mem_cons, exists_eq_or_imp]

theorem testBit_allMasked (inside : i < 8) :
    allMasked.primary.toNat.testBit i = true ∧ allMasked.secondary.toNat.testBit i = true := by
  revert i
  decide

theorem testBit_primary_forLines (lines : List UInt8) (inside : i < 8) :
    (forLines lines).primary.toNat.testBit i = false ↔ ∃ line ∈ lines, ClearsPrimary line i := by
  have run := foldl_enable_iff (·.primary.toNat.testBit i)
    (fun m line => testBit_primary_enable m line inside) lines allMasked
  rw [(testBit_allMasked inside).1] at run
  simpa [forLines] using run

theorem testBit_secondary_forLines (lines : List UInt8) (inside : j < 8) :
    (forLines lines).secondary.toNat.testBit j = false ↔ ∃ line ∈ lines, line.toNat = 8 + j := by
  have run := foldl_enable_iff (·.secondary.toNat.testBit j)
    (fun m line => testBit_secondary_enable m line inside) lines allMasked
  rw [(testBit_allMasked inside).2] at run
  simpa [forLines] using run

/-- Lists with the same lines, however they are arranged, have the same masks. -/
theorem forLines_congr {lines others : List UInt8}
    (same : ∀ line < 16, line ∈ lines ↔ line ∈ others) : forLines lines = forLines others := by
  have transfer {Clears : UInt8 → Prop} (known : ∀ line, Clears line → line < 16) :
      (∃ line ∈ lines, Clears line) ↔ ∃ line ∈ others, Clears line :=
    exists_congr fun line => and_congr_left fun clears => same line (known line clears)
  have primary : (forLines lines).primary = (forLines others).primary := by
    refine eq_of_testBit fun i inside => ?_
    rw [testBit_primary_forLines lines inside, testBit_primary_forLines others inside]
    refine transfer fun line clears => show line.toNat < 16 from ?_
    rcases clears with own | cascade <;> omega
  have secondary : (forLines lines).secondary = (forLines others).secondary := by
    refine eq_of_testBit fun j inside => ?_
    rw [testBit_secondary_forLines lines inside, testBit_secondary_forLines others inside]
    exact transfer fun line clears => show line.toNat < 16 by omega
  calc forLines lines
      = ⟨(forLines lines).primary, (forLines lines).secondary⟩ := rfl
    _ = ⟨(forLines others).primary, (forLines others).secondary⟩ := by rw [primary, secondary]

/-- A line gets through exactly if it is in the list; the line of the cascade does as well if some
line of the second controller is in it. Neither the order of the list nor repetitions in it matter,
nor numbers that no line has. -/
theorem forLines_enables (lines : List UInt8) :
    (∀ i < 8, (forLines lines).primary.toNat.testBit i = false ↔
      (∃ line ∈ lines, line.toNat = i) ∨
        i = cascadeLine.toNat ∧ ∃ line ∈ lines, 8 ≤ line.toNat ∧ line.toNat ≤ 15) ∧
    (∀ j < 8, (forLines lines).secondary.toNat.testBit j = false ↔
      ∃ line ∈ lines, line.toNat = 8 + j) ∧
    forLines (lines.filter (· < 16)) = forLines lines ∧
    ∀ others, (∀ line < 16, line ∈ lines ↔ line ∈ others) → forLines lines = forLines others := by
  refine ⟨fun i inside => ?_, fun j inside => testBit_secondary_forLines lines inside,
    forLines_congr fun line known => ?_, fun others same => forLines_congr same⟩
  · rw [testBit_primary_forLines lines inside]
    constructor
    · rintro ⟨line, listed, own | ⟨cascade, second⟩⟩
      · exact .inl ⟨line, listed, own⟩
      · exact .inr ⟨cascade, line, listed, second⟩
    · rintro (⟨line, listed, own⟩ | ⟨cascade, line, listed, second⟩)
      · exact ⟨line, listed, .inl own⟩
      · exact ⟨line, listed, .inr ⟨cascade, second⟩⟩
  · rw [List.mem_filter, decide_eq_true_iff]
    exact and_iff_left known

example : forLines [12, 1, 0, 12, 77] = ⟨0xf8, 0xef⟩ := by decide

end KernelCore.LineMasks
