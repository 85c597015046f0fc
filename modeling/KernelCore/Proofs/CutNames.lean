import KernelCore.ProcessName
import KernelCore.Proofs.CallerTexts

/-!
# Cut names

A text that does not fit into a name is cut, and the search for the cut goes back byte by byte. It
looks at single bytes only, while a text is made of characters: `isBoundary_iff` says that the bytes
before which it may stop are those between two characters. A character has at most four bytes, so
the search is over after three steps, and what is kept is the longest text that fits.
-/
namespace KernelCore

theorem toList_loop (bytes : ByteArray) (i : Nat) (acc : List UInt8) :
    ByteArray.toList.loop bytes i acc = acc.reverse ++ bytes.data.toList.drop i := by
  fun_induction ByteArray.toList.loop bytes i acc with
  | case1 i acc inside ih =>
    have inside : i < bytes.data.toList.length := by simpa using inside
    have byte : bytes.get! i = bytes.data.toList[i] := by
      rw [Array.getElem_toList]
      exact getElem!_pos bytes.data i (by simpa using inside)
    rw [ih, byte, List.reverse_cons, List.append_assoc, List.drop_eq_getElem_cons inside]
    rfl
  | case2 i acc past =>
    have past : bytes.data.toList.length ≤ i := by simpa using past
    rw [List.drop_eq_nil_of_le past, List.append_nil]

theorem toList_toUTF8 (s : String) : s.toUTF8.toList = s.toByteArray.data.toList :=
  toList_loop s.toByteArray 0 []

theorem length_toList_toUTF8 (s : String) : s.toUTF8.toList.length = s.utf8ByteSize := by
  rw [toList_toUTF8]
  simp

/-- The bytes of a character are not the large ones that neither begin nor continue one. -/
theorem toNat_lt_of_mem_utf8EncodeChar {c : Char} {b : UInt8} (h : b ∈ String.utf8EncodeChar c) :
    b.toNat < 0xf8 := by
  unfold String.utf8EncodeChar at h
  generalize c.val.toNat = v at h
  simp only at h
  repeat' split at h
  all_goals
    simp only [List.mem_cons, List.not_mem_nil, or_false] at h
    rcases h with rfl | rfl | rfl | rfl
  all_goals
    rw [UInt8.toNat_ofNat']
    omega

theorem toNat_lt_of_mem_toByteArray {s : String} {b : UInt8} (h : b ∈ s.toByteArray.data.toList) :
    b.toNat < 0xf8 := by
  obtain ⟨cs, rfl⟩ := s.exists_eq_ofList
  rw [String.toByteArray_ofList, List.utf8Encode, List.toList_data_toByteArray,
    List.mem_flatMap] at h
  obtain ⟨c, -, here⟩ := h
  exact toNat_lt_of_mem_utf8EncodeChar here

/-- Of two beginnings of a text, the longer one begins with the shorter one. -/
theorem exists_append_of_size_le {s first rest longer rest' : String} (split : s = first ++ rest)
    (split' : s = longer ++ rest') (le : first.utf8ByteSize ≤ longer.utf8ByteSize) :
    ∃ more, longer = first ++ more := by
  have bytes : s.toByteArray.data.toList.take first.utf8ByteSize =
      longer.toByteArray.data.toList.take first.utf8ByteSize := by
    rw [split', String.toByteArray_append, ByteArray.toList_data_append]
    exact List.take_append_of_le_length (by simpa using le)
  have size_le : first.utf8ByteSize ≤ s.utf8ByteSize := by simp [split]
  have taken := (toByteArray_eq_take_iff size_le).mpr ⟨rfl, rest, split⟩
  rw [bytes] at taken
  exact ((toByteArray_eq_take_iff le).mp taken).2

/-- Among the beginnings of `s` that have at most `limit` bytes, `kept` is the longest. -/
structure LongestWithin (limit : Nat) (s kept : String) : Prop where
  begins : ∃ rest, s = kept ++ rest
  fits : kept.utf8ByteSize ≤ limit
  longest : ∀ first rest, s = first ++ rest → first.utf8ByteSize ≤ limit →
    ∃ more, kept = first ++ more

namespace LongestWithin

variable {limit : Nat} {s kept : String}

theorem size_le (h : LongestWithin limit s kept) {first rest : String} (split : s = first ++ rest)
    (fits : first.utf8ByteSize ≤ limit) : first.utf8ByteSize ≤ kept.utf8ByteSize := by
  obtain ⟨more, rfl⟩ := h.longest first rest split fits
  rw [String.utf8ByteSize_append]
  exact Nat.le_add_right _ _

/-- A text that fits is kept as a whole. -/
theorem eq_self (h : LongestWithin limit s kept) (fits : s.utf8ByteSize ≤ limit) : kept = s := by
  obtain ⟨rest, split⟩ := h.begins
  have le := h.size_le String.append_empty.symm fits
  have sizes := congrArg String.utf8ByteSize split
  rw [String.utf8ByteSize_append] at sizes
  have none : rest.utf8ByteSize = 0 := by omega
  rw [String.utf8ByteSize_eq_zero_iff] at none
  rw [split, none, String.append_empty]

/-- The next character would not fit, and it has at most four bytes. -/
theorem lt_size_add_four (h : LongestWithin limit s kept) (long : limit < s.utf8ByteSize) :
    limit < kept.utf8ByteSize + 4 := by
  obtain ⟨rest, split⟩ := h.begins
  obtain ⟨cs, rfl⟩ := rest.exists_eq_ofList
  cases cs with
  | nil =>
    have fits := h.fits
    rw [split] at long
    simp at long
    omega
  | cons c cs =>
    have next : s = (kept ++ String.singleton c) ++ String.ofList cs := by
      rw [split, String.ofList_cons, String.append_assoc]
    have size : (kept ++ String.singleton c).utf8ByteSize = kept.utf8ByteSize + c.utf8Size := by
      rw [String.utf8ByteSize_append, String.utf8ByteSize_singleton]
    have some_bytes := c.utf8Size_pos
    have at_most_four := c.utf8Size_le_four
    refine Nat.lt_of_not_le fun within => ?_
    have le := h.size_le next (by omega)
    omega

end LongestWithin

namespace ProcessName

theorem continues_iff {b : UInt8} (small : b.toNat < 0xf8) :
    continues b = true ↔ ¬ b.IsUTF8FirstByte := by
  have all : ∀ n : Fin 0xf8,
      continues (UInt8.ofNat n) = true ↔ ¬ (UInt8.ofNat n).IsUTF8FirstByte := by decide +kernel
  simpa using all ⟨b.toNat, small⟩

theorem isBoundary_iff_isValid {s : String} {i : Nat} :
    isBoundary s.toUTF8.toList i = true ↔ (⟨i⟩ : String.Pos.Raw).IsValid s := by
  have length := length_toList_toUTF8 s
  rw [toList_toUTF8] at length
  rw [toList_toUTF8, isBoundary, length]
  rcases Nat.lt_trichotomy i s.utf8ByteSize with inside | rfl | past
  · have before : (⟨i⟩ : String.Pos.Raw) < s.rawEndPos := inside
    have byte : s.toByteArray.data.toList[i]? = some (s.getUTF8Byte ⟨i⟩ before) :=
      List.getElem?_eq_getElem (length.symm ▸ inside)
    have starts := continues_iff (toNat_lt_of_mem_toByteArray (List.mem_of_getElem? byte))
    have not_end : (⟨i⟩ : String.Pos.Raw) ≠ s.rawEndPos := String.Pos.Raw.ne_of_lt before
    rw [byte, String.Pos.Raw.isValid_iff_isUTF8FirstByte, or_iff_right not_end,
      exists_prop_of_true before]
    rcases Nat.eq_zero_or_pos i with rfl | later
    · exact iff_of_true rfl String.isUTF8FirstByte_getUTF8Byte_zero
    · simp [Nat.ne_of_gt later, ← Bool.not_eq_true, starts]
  · have none : s.toByteArray.data.toList[s.utf8ByteSize]? = none :=
      List.getElem?_eq_none (Nat.le_of_eq length)
    rw [none]
    exact iff_of_true (by simp) String.Pos.Raw.isValid_rawEndPos
  · have none : s.toByteArray.data.toList[i]? = none :=
      List.getElem?_eq_none (length.symm ▸ Nat.le_of_lt past)
    rw [none]
    refine iff_of_false ?_ fun valid => Nat.not_le_of_lt past valid.le_rawEndPos
    simp only [Bool.or_eq_true, beq_iff_eq]
    omega

/-- A text may be cut exactly between two characters, and at its ends. -/
theorem isBoundary_iff {s : String} {i : Nat} :
    isBoundary s.toUTF8.toList i = true ↔
      ∃ first rest, s = first ++ rest ∧ first.utf8ByteSize = i := by
  rw [isBoundary_iff_isValid, String.Pos.Raw.isValid_iff_exists_append]
  simp only [String.Pos.Raw.ext_iff, String.byteIdx_rawEndPos, eq_comm]

/-- No boundary that the search may stop at comes after the one it finds. -/
theorem le_boundaryBefore {text : List UInt8} {i j : Nat} (le : j ≤ i)
    (boundary : isBoundary text j = true) : j ≤ boundaryBefore text i := by
  induction i with
  | zero => exact le
  | succ i ih =>
    rw [boundaryBefore]
    split
    case isTrue stop => exact le
    case isFalse goOn =>
      refine ih (Nat.le_of_lt_succ (Nat.lt_of_le_of_ne le ?_))
      rintro rfl
      exact goOn boundary

/-- Going back from byte `i`, as long as the text may not be cut there, ends before byte `j` after
`n` steps. There is no step back from the front. -/
inductive StepsBack (text : List UInt8) : (i n j : Nat) → Prop where
  | stop {i} (boundary : isBoundary text i = true) : StepsBack text i 0 i
  | back {i n j} (inside : isBoundary text (i + 1) = false) (rest : StepsBack text i n j) :
      StepsBack text (i + 1) (n + 1) j

theorem stepsBack_boundaryBefore (text : List UInt8) (i : Nat) :
    ∃ n, boundaryBefore text i + n = i ∧ StepsBack text i n (boundaryBefore text i) := by
  induction i with
  | zero => exact ⟨0, rfl, .stop rfl⟩
  | succ i ih =>
    rw [boundaryBefore]
    split
    case isTrue stop => exact ⟨0, rfl, .stop stop⟩
    case isFalse goOn =>
      obtain ⟨n, count, steps⟩ := ih
      exact ⟨n + 1, by omega, .back (eq_false_of_ne_true goOn) steps⟩

/-! ### What a name keeps -/

theorem fitting_length (text : List UInt8) :
    (fitting text).length = boundaryBefore text (min text.length maxLength) := by
  have le := boundaryBefore_le text (min text.length maxLength)
  rw [fitting, List.length_take]
  omega

/-- What fits is the longest beginning of the text that a name has room for. -/
theorem exists_longestWithin (s : String) :
    ∃ kept, LongestWithin maxLength s kept ∧ fitting s.toUTF8.toList = kept.toUTF8.toList := by
  have length := length_toList_toUTF8 s
  have bound := boundaryBefore_le s.toUTF8.toList (min s.utf8ByteSize maxLength)
  obtain ⟨kept, rest, split, size⟩ := isBoundary_iff.mp
    (isBoundary_boundaryBefore s.toUTF8.toList (min s.utf8ByteSize maxLength))
  have longest : ∀ first rest, s = first ++ rest → first.utf8ByteSize ≤ maxLength →
      ∃ more, kept = first ++ more := by
    intro first rest' split' fits
    have inside : first.utf8ByteSize ≤ s.utf8ByteSize := by simp [split']
    have le := le_boundaryBefore (Nat.le_min.mpr ⟨inside, fits⟩)
      (isBoundary_iff.mpr ⟨first, rest', split', rfl⟩)
    exact exists_append_of_size_le split' split (size.symm ▸ le)
  refine ⟨kept, ⟨⟨rest, split⟩, by omega, longest⟩, ?_⟩
  rw [fitting, length, ← size, toList_toUTF8, toList_toUTF8, split, String.toByteArray_append,
    ByteArray.toList_data_append]
  simp

/-- The bytes of a name that count are the ones that fit. -/
theorem take_bytes_ofString (s : String) :
    (ofString s).bytes.toList.take (ofString s).length = fitting s.toUTF8.toList := by
  have room : (fitting s.toUTF8.toList).length < 32 :=
    Nat.lt_succ_of_le (length_fitting_le s.toUTF8.toList)
  simp only [ofString]
  generalize fitting s.toUTF8.toList = kept at room
  refine List.ext_getElem ?_ fun i _ counts => ?_
  · rw [List.length_take, Vector.length_toList]
    omega
  · rw [List.getElem_take, Vector.getElem_toList, Vector.getElem_ofFn, List.getD_eq_getElem?_getD,
      List.getElem?_eq_getElem counts, Option.getD_some]

/-- The other bytes are zero. -/
theorem bytes_ofString_of_le (s : String) {i : Fin 32} (past : (ofString s).length ≤ i) :
    (ofString s).bytes[i] = 0 := by
  unfold ofString at past ⊢
  rw [Fin.getElem_fin, Vector.getElem_ofFn, List.getD_eq_getElem?_getD,
    List.getElem?_eq_none past, Option.getD_none]

theorem fromUTF8?_toList_toUTF8 (s : String) :
    String.fromUTF8? s.toUTF8.toList.toByteArray = some s := by
  have bytes : s.toUTF8.toList.toByteArray = s.toByteArray := by
    rw [toList_toUTF8]
    exact ByteArray.ext (by simp)
  have valid : s.toUTF8.toList.toByteArray.IsValidUTF8 := bytes ▸ s.isValidUTF8
  rw [String.fromUTF8?, dif_pos valid, Option.some_inj, ← String.toByteArray_inj]
  exact bytes

theorem text_ofString {s kept : String} (fit : fitting s.toUTF8.toList = kept.toUTF8.toList) :
    (ofString s).text = kept := by
  rw [text, take_bytes_ofString, fit, fromUTF8?_toList_toUTF8, Option.getD_some]

/-- A text that fits is kept as it is. -/
theorem fitting_eq_self {s : String} (fits : s.utf8ByteSize ≤ maxLength) :
    fitting s.toUTF8.toList = s.toUTF8.toList := by
  obtain ⟨kept, longest, fit⟩ := exists_longestWithin s
  rw [fit, longest.eq_self fits]

/-- The search stops after three steps back at the latest. -/
theorem exists_stepsBack {s kept : String} (longest : LongestWithin maxLength s kept)
    (fit : fitting s.toUTF8.toList = kept.toUTF8.toList) :
    ∃ steps ≤ 3,
      StepsBack s.toUTF8.toList (min s.utf8ByteSize maxLength) steps kept.utf8ByteSize := by
  have found : boundaryBefore s.toUTF8.toList (min s.utf8ByteSize maxLength) =
      kept.utf8ByteSize := by
    rw [← length_toList_toUTF8 kept, ← fit, fitting_length, length_toList_toUTF8]
  obtain ⟨steps, count, stops⟩ :=
    stepsBack_boundaryBefore s.toUTF8.toList (min s.utf8ByteSize maxLength)
  rw [found] at count stops
  refine ⟨steps, ?_, stops⟩
  rcases Nat.lt_or_ge maxLength s.utf8ByteSize with long | fits
  · have near := longest.lt_size_add_four long
    omega
  · have whole := congrArg String.utf8ByteSize (longest.eq_self fits)
    omega

/-- A name has the longest beginning of the text that has at most 31 bytes and ends with a whole
character; it is the whole text if that is not longer, and has at least 28 bytes otherwise. The
search for its end goes back at most three bytes. The bytes of the name that count spell it, the
others are zero, and it would be kept as it is. -/
theorem ofString_keeps_longest (s : String) :
    let kept := (ofString s).text
    (∃ steps ≤ 3, StepsBack s.toUTF8.toList (min s.utf8ByteSize 31) steps (ofString s).length) ∧
    LongestWithin 31 s kept ∧
    (s.utf8ByteSize ≤ 31 → kept = s) ∧
    (31 < s.utf8ByteSize → 28 ≤ kept.utf8ByteSize) ∧
    (ofString s).length = kept.utf8ByteSize ∧
    String.fromUTF8? ((ofString s).bytes.toList.take (ofString s).length).toByteArray = some kept ∧
    (∀ i : Fin 32, kept.utf8ByteSize ≤ i → (ofString s).bytes[i] = 0) ∧
    ofString kept = ofString s := by
  intro kept
  obtain ⟨kept', longest, fit⟩ := exists_longestWithin s
  obtain rfl : kept = kept' := text_ofString fit
  have size : (ofString s).length = kept.utf8ByteSize := by
    rw [← length_toList_toUTF8, ← fit]
    rfl
  have almost (long : 31 < s.utf8ByteSize) : 28 ≤ kept.utf8ByteSize := by
    have near : 31 < kept.utf8ByteSize + 4 := longest.lt_size_add_four long
    omega
  have again : fitting kept.toUTF8.toList = fitting s.toUTF8.toList := by
    rw [fitting_eq_self longest.fits, fit]
  refine ⟨?_, longest, longest.eq_self, almost, size, ?_, fun i past => ?_, ?_⟩
  · rw [size]
    exact exists_stepsBack longest fit
  · rw [take_bytes_ofString, fit, fromUTF8?_toList_toUTF8]
  · exact bytes_ofString_of_le s (size.symm ▸ past)
  · simp only [ofString, again]

end ProcessName
end KernelCore
