import KernelCore.Proofs.LoadAcceptance
import Mathlib.Algebra.BigOperators.Ring.Finset

/-!
# Which headers are accepted

A file header is a row of fields of fixed sizes, each of which begins where the one before it ends.
The header is in order exactly if its fields have the values that they must have and the program
header table lies in the image; otherwise the error is that of the first field in turn that is
wrong. So every program header that is read after that lies in the image.
-/
namespace KernelCore

open Requirement

inductive HeaderField where
  | magic | wordSize | byteOrder | ident | type | machine | version | entry | tableOffset
  | sectionOffset | flags | headerSize | entrySize | tableLength | sectionSize | sectionCount
  | nameSection
  deriving DecidableEq, Repr

namespace HeaderField

def size : HeaderField → Nat
  | .wordSize | .byteOrder => 1
  | .type | .machine | .headerSize | .entrySize | .tableLength | .sectionSize | .sectionCount
  | .nameSection => 2
  | .magic | .version | .flags => 4
  | .entry | .tableOffset | .sectionOffset => 8
  | .ident => 10

/-- The fields in the order in which they lie in the header. -/
def all : List HeaderField :=
  [.magic, .wordSize, .byteOrder, .ident, .type, .machine, .version, .entry, .tableOffset,
    .sectionOffset, .flags, .headerSize, .entrySize, .tableLength, .sectionSize, .sectionCount,
    .nameSection]

/-- A field begins where the one before it ends. -/
def offset (f : HeaderField) : Nat := ((all.takeWhile (· ≠ f)).map size).sum

example : (all.map size).sum = ExecutableImage.headerSize := rfl

end HeaderField

theorem LittleEndian.ofBytes_take (bytes : List UInt8) (length : Nat) :
    ofBytes (bytes.take length) =
      ∑ i ∈ Finset.range length, (bytes.getD i 0).toNat * 256 ^ i := by
  induction length generalizing bytes with
  | zero => simp [ofBytes]
  | succ length ih =>
    cases bytes with
    | nil => simp [ofBytes]
    | cons b bytes =>
      rw [List.take_succ_cons, ofBytes, ih, Finset.sum_range_succ', Finset.mul_sum]
      simp [Nat.add_comm, Nat.pow_succ, Nat.mul_comm, Nat.mul_assoc]

namespace ExecutableImage

variable {image : ExecutableImage}

/-- The number in a field of the header, whose first byte counts least. -/
def value (image : ExecutableImage) (f : HeaderField) : Nat :=
  ∑ i ∈ Finset.range f.size, (image.bytes.getD (f.offset + i) 0).toNat * 256 ^ i

theorem value_eq_field (image : ExecutableImage) (f : HeaderField) :
    image.value f = image.field f.offset f.size := by
  have slice : (image.bytes.extract f.offset (f.offset + f.size)).toList =
      (image.bytes.toList.drop f.offset).take f.size := by
    simp
  rw [field, slice, LittleEndian.ofBytes_take]
  simp [value]

/-- The first byte behind the program header table. -/
def tableEnd (image : ExecutableImage) : Nat :=
  image.value .tableOffset + 56 * image.value .tableLength

/-- What a header must be like, in the order in which it is looked at. -/
def headerConditions (image : ExecutableImage) : List Requirement :=
  [⟨64 ≤ image.size, .tooSmall⟩,
    ⟨image.bytes.extract 0 4 = #[0x7f, 0x45, 0x4c, 0x46], .badMagic⟩,
    ⟨image.value .wordSize = 2, .notElf64⟩,
    ⟨image.value .byteOrder = 1, .notLittleEndian⟩,
    ⟨image.value .type = 2, .notExecutable⟩,
    ⟨image.value .machine = 62, .wrongMachine⟩,
    ⟨0 < image.value .tableLength →
      image.value .entrySize = 56 ∧ image.tableEnd ≤ image.size, .badProgramHeaders⟩]

theorem headerConditions_eq (image : ExecutableImage) :
    image.headerConditions = image.headerRequirements := by
  simp only [headerConditions, tableEnd, value_eq_field]
  rfl

theorem nominalHeader_eq (image : ExecutableImage) :
    image.nominalHeader =
      ⟨image.value .entry, image.value .tableOffset, image.value .tableLength⟩ := by
  simp only [value_eq_field]
  rfl

theorem validate_ok_iff : image.validate = .ok () ↔ ∃ h, image.header = .ok h := by
  rw [validate]
  cases image.header <;> simp

theorem validate_error_iff {e : ImageError} :
    image.validate = .error e ↔ image.header = .error e := by
  rw [validate]
  cases image.header <;> simp

theorem validate_decided (image : ExecutableImage) :
    (image.validate = .ok () ↔ ∀ r ∈ image.headerConditions, r.holds) ∧
      ∀ e, image.validate = .error e ↔ FirstFault image.headerConditions e := by
  have decided := decides_header image
  rw [headerConditions_eq]
  constructor
  · rw [validate_ok_iff, ← decided.ok_iff]
    cases image.header <;> simp [Outcome.ofExcept]
  · intro e
    rw [validate_error_iff, ← decided.error_iff]
    cases image.header <;> simp [Outcome.ofExcept]

/-- An image of the `length` bytes from `offset` on, and of no others. -/
def part (image : ExecutableImage) (offset length : Nat) : ExecutableImage :=
  ⟨image.bytes.extract offset (offset + length)⟩

theorem field_part {offset length place size : Nat} (inside : place + size ≤ length) :
    (image.part offset length).field place size = image.field (offset + place) size := by
  rw [field, field, part, Array.extract_extract, ← Nat.add_assoc, Nat.min_eq_left (by omega)]

/-- No byte but those of its record decides what a program header says. -/
theorem programHeader_part (image : ExecutableImage) (offset : Nat) :
    (image.part offset programHeaderSize).programHeader 0 = image.programHeader offset := by
  simp [programHeader, programHeaderSize, field_part]

theorem entryPoint_of_error {e : ImageError} (h : image.header = .error e) :
    image.entryPoint = .error e := by
  rw [entryPoint, h]

theorem entryPoint_of_ok {header : ImageHeader} (h : image.header = .ok header) :
    image.entryPoint =
      if Canonical header.entry then .ok header.entry else .error .addressOverflow := by
  rw [entryPoint, h]

/-- A header is accepted exactly if its fields are as they must be and the program header table, if
there is one, has entries of the right size and ends in the image. Otherwise the error is the one of
the first condition in turn that does not hold. The size of an image is a word, and then the end of
a table in it is one too: in words, with an error at every product and sum that is none, the header
is read in the same way. The entry point of an image that is accepted is what the header says,
unless that is not canonical. There are as many program headers as the header says, and each is read
from a record of its own, which lies in the image as a whole. -/
theorem validate_accepts (image : ExecutableImage) :
    (image.validate = .ok () ↔ ∀ r ∈ image.headerConditions, r.holds) ∧
    (∀ e, image.validate = .error e ↔ FirstFault image.headerConditions e) ∧
    (image.size < wordLimit →
      (image.tableEnd ≤ image.size → image.tableEnd < wordLimit) ∧
      image.guardedHeader = .ofExcept image.header) ∧
    (∀ e, image.validate = .error e → image.entryPoint = .error e) ∧
    (image.validate = .ok () →
      image.entryPoint = (if Canonical (image.value .entry) then .ok (image.value .entry)
        else .error .addressOverflow) ∧
      ∃ h, image.header = .ok h ∧
        (image.programHeaders h).length = image.value .tableLength ∧
        ∀ i < image.value .tableLength, ∃ start, start = image.value .tableOffset + i * 56 ∧
          start + 56 ≤ image.size ∧
          (image.programHeaders h)[i]? = some ((image.part start 56).programHeader 0)) := by
  obtain ⟨accepted, refused⟩ := validate_decided image
  refine ⟨accepted, refused, fun fits => ⟨fun ends => Nat.lt_of_le_of_lt ends fits,
    guardedHeader_eq fits⟩, fun e wrong => entryPoint_of_error (validate_error_iff.mp wrong), ?_⟩
  intro good
  obtain ⟨h, found⟩ := validate_ok_iff.mp good
  have nominal := (eq_nominalHeader found).trans image.nominalHeader_eq
  have entry := entryPoint_of_ok found
  have inside {i : Nat} := table_inside found (i := i)
  subst nominal
  refine ⟨entry, _, found, by simp [programHeaders], fun i hi => ⟨_, rfl, inside hi, ?_⟩⟩
  have record := programHeader_part image (image.value .tableOffset + i * programHeaderSize)
  rw [programHeaders, List.getElem?_map, List.getElem?_range hi]
  exact congrArg some record.symm

end ExecutableImage
end KernelCore
