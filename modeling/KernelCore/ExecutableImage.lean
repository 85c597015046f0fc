import KernelCore.AddressSpace
import KernelCore.LittleEndian

/-!
# Executable images

ELF64 images for x86-64, as far as loading needs them: the header, the program header table and the
loadable segments. `header` and `segment?` hold all the checks, in the order in which the first
violated one is the error. Offsets and sizes are natural numbers, so no check can be passed by a sum
that wraps.
-/
namespace KernelCore

/-- Why an image was not loaded. -/
inductive ImageError where
  | tooSmall
  | badMagic
  | notElf64
  | notLittleEndian
  | notExecutable
  | wrongMachine
  | badProgramHeaders
  | segmentOutOfBounds
  | badSegmentSize
  | addressOverflow
  | notUserAddress
  | outOfMemory
  | mapFailed (cause : MapError)
  deriving DecidableEq, Repr

def ImageError.label : ImageError → String
  | .tooSmall => "TooSmall"
  | .badMagic => "BadMagic"
  | .notElf64 => "NotElf64"
  | .notLittleEndian => "NotLittleEndian"
  | .notExecutable => "NotExecutable"
  | .wrongMachine => "WrongMachine"
  | .badProgramHeaders => "BadProgramHeaders"
  | .segmentOutOfBounds => "SegmentOutOfBounds"
  | .badSegmentSize => "BadSegmentSize"
  | .addressOverflow => "AddressOverflow"
  | .notUserAddress => "NotUserAddress"
  | .outOfMemory => "OutOfMemory"
  | .mapFailed cause => "MapFailed(" ++ cause.label ++ ")"

def ImageError.message : ImageError → String
  | .tooSmall => "image smaller than an ELF header"
  | .badMagic => "bad ELF magic"
  | .notElf64 => "not an ELF64 image"
  | .notLittleEndian => "not little-endian"
  | .notExecutable => "not an ET_EXEC image"
  | .wrongMachine => "not an x86_64 image"
  | .badProgramHeaders => "program header table malformed"
  | .segmentOutOfBounds => "segment extends past end of image"
  | .badSegmentSize => "segment filesz exceeds memsz"
  | .addressOverflow => "segment address out of range"
  | .notUserAddress => "segment outside user address range"
  | .outOfMemory => "out of physical frames"
  | .mapFailed cause => "mapping failed: " ++ cause.message

/-- What loading needs of a file header. -/
structure ImageHeader where
  entry : Nat
  tableOffset : Nat
  tableLength : Nat
  deriving DecidableEq, Repr

/-- What loading needs of a program header. -/
structure ProgramHeader where
  type : Nat
  offset : Nat
  address : Nat
  fileSize : Nat
  memorySize : Nat
  deriving DecidableEq, Repr

/-- A loadable segment that takes memory. Its first `fileSize` bytes come from the image. -/
structure Segment where
  start : Nat
  size : Nat
  fileOffset : Nat
  fileSize : Nat
  deriving DecidableEq, Repr

namespace Segment

def firstPage (s : Segment) : Nat := s.start / pageSize

def lastPage (s : Segment) : Nat := (s.start + (s.size - 1)) / pageSize

def pageCount (s : Segment) : Nat := s.lastPage - s.firstPage + 1

def pages (s : Segment) : List Page := pagesFrom s.firstPage s.pageCount

def spans (s : Segment) (p : Page) : Bool := s.firstPage ≤ p.number && p.number ≤ s.lastPage

theorem mem_pages {s : Segment} {p : Page} : p ∈ s.pages ↔ s.spans p = true := by
  have h : s.firstPage ≤ s.lastPage := Nat.div_le_div_right (Nat.le_add_right _ _)
  simp only [pages, pagesFrom, pageCount, spans, List.mem_map, List.mem_range'_1, Bool.and_eq_true,
    decide_eq_true_eq]
  constructor
  · rintro ⟨n, hn, rfl⟩
    exact ⟨hn.1, by simp only; omega⟩
  · rintro hp
    exact ⟨p.number, by omega, rfl⟩

end Segment

/-- The bytes of an image. -/
structure ExecutableImage where
  bytes : Array UInt8

namespace ExecutableImage

def headerSize : Nat := 64

def programHeaderSize : Nat := 56

/-- Type of a program header that describes a loadable segment. -/
def loadable : Nat := 1

def size (image : ExecutableImage) : Nat := image.bytes.size

/-- The little-endian number in the `length` bytes from `offset` on. -/
def field (image : ExecutableImage) (offset length : Nat) : Nat :=
  LittleEndian.ofBytes (image.bytes.extract offset (offset + length)).toList

/-- The header of an image, or the first thing that is wrong with it. -/
def header (image : ExecutableImage) : Except ImageError ImageHeader :=
  if image.size < headerSize then .error .tooSmall
  else if image.bytes.extract 0 4 ≠ #[0x7f, 0x45, 0x4c, 0x46] then .error .badMagic
  else if image.field 4 1 ≠ 2 then .error .notElf64
  else if image.field 5 1 ≠ 1 then .error .notLittleEndian
  else if image.field 16 2 ≠ 2 then .error .notExecutable
  else if image.field 18 2 ≠ 62 then .error .wrongMachine
  else
    let count := image.field 56 2
    let offset := image.field 32 8
    if 0 < count ∧
        (image.field 54 2 ≠ programHeaderSize ∨ image.size < offset + programHeaderSize * count)
    then .error .badProgramHeaders
    else .ok ⟨image.field 24 8, offset, count⟩

/-- Whether the header is in order. -/
def validate (image : ExecutableImage) : Except ImageError Unit :=
  match image.header with
  | .error e => .error e
  | .ok _ => .ok ()

def entryPoint (image : ExecutableImage) : Except ImageError Nat :=
  match image.header with
  | .error e => .error e
  | .ok h => if Canonical h.entry then .ok h.entry else .error .addressOverflow

def programHeader (image : ExecutableImage) (offset : Nat) : ProgramHeader where
  type := image.field offset 4
  offset := image.field (offset + 8) 8
  address := image.field (offset + 16) 8
  fileSize := image.field (offset + 32) 8
  memorySize := image.field (offset + 40) 8

def programHeaders (image : ExecutableImage) (h : ImageHeader) : List ProgramHeader :=
  (List.range h.tableLength).map fun i =>
    image.programHeader (h.tableOffset + i * programHeaderSize)

/-- The program headers that describe loadable segments, in table order. -/
def loadHeaders (image : ExecutableImage) (h : ImageHeader) : List ProgramHeader :=
  (image.programHeaders h).filter (·.type = loadable)

/-- The segment that a program header describes, which is none if it takes no memory. -/
def segment? (image : ExecutableImage) (user : Bool) (h : ProgramHeader) :
    Except ImageError (Option Segment) :=
  if h.memorySize < h.fileSize then .error .badSegmentSize
  else if image.size < h.offset + h.fileSize then .error .segmentOutOfBounds
  else if h.memorySize = 0 then .ok none
  else if ¬ Canonical h.address ∨ ¬ Canonical (h.address + (h.memorySize - 1)) then
    .error .addressOverflow
  else if user ∧ userSpaceEnd ≤ h.address + (h.memorySize - 1) then .error .notUserAddress
  else .ok (some ⟨h.address, h.memorySize, h.offset, h.fileSize⟩)

def contents (image : ExecutableImage) (s : Segment) : Array UInt8 :=
  image.bytes.extract s.fileOffset (s.fileOffset + s.fileSize)

end ExecutableImage
end KernelCore
