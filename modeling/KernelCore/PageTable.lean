import KernelCore.AddressSpace
import KernelCore.FrameReserve

/-!
# Page tables

Four levels of tables of 512 entries each, one table in one frame of physical memory. The number of
a page picks one entry at every level, nine bits at a time, the uppermost ones first; an entry above
the last level leads to a table of the level below, one of the last level to the frame that the page
is mapped to.
-/
namespace KernelCore

def tableLength : Nat := 512

/-- The content of every frame, read as a table of entries. -/
structure PhysicalMemory where
  entry : Frame → Fin tableLength → UInt64

namespace PhysicalMemory

def zeros : PhysicalMemory := ⟨fun _ _ => 0⟩

def set (m : PhysicalMemory) (table : Frame) (i : Fin tableLength) (value : UInt64) :
    PhysicalMemory :=
  ⟨fun f j => if f = table ∧ j = i then value else m.entry f j⟩

def setTable (m : PhysicalMemory) (table : Frame) (entries : Fin tableLength → UInt64) :
    PhysicalMemory :=
  ⟨fun f j => if f = table then entries j else m.entry f j⟩

def clearTable (m : PhysicalMemory) (table : Frame) : PhysicalMemory :=
  m.setTable table fun _ => 0

/-- Copies the entries of one table that are in use over those of another. -/
def copyUsed (m : PhysicalMemory) (source target : Frame) : PhysicalMemory :=
  m.setTable target fun i =>
    if m.entry source i = 0 then m.entry target i else m.entry source i

@[simp] theorem entry_set_self (m : PhysicalMemory) (table : Frame) (i : Fin tableLength)
    (value : UInt64) : (m.set table i value).entry table i = value := by simp [set]

theorem entry_setTable_other (m : PhysicalMemory) {table f : Frame}
    (entries : Fin tableLength → UInt64) (h : f ≠ table) :
    (m.setTable table entries).entry f = m.entry f := by
  funext j; simp [setTable, h]

/-- Over an empty table the copy is that of a whole table. -/
theorem entry_copyUsed_clearTable (m : PhysicalMemory) {source target : Frame}
    (apart : source ≠ target) (f : Frame) (i : Fin tableLength) :
    ((m.clearTable target).copyUsed source target).entry f i =
      if f = target then m.entry source i else m.entry f i := by
  have kept : (m.clearTable target).entry source i = m.entry source i := if_neg apart
  have empty : (m.clearTable target).entry target i = 0 := if_pos rfl
  by_cases h : f = target
  · simp only [copyUsed, setTable, h, if_true, kept, empty]
    split
    · rename_i unused
      exact unused.symm
    · rfl
  · simp only [copyUsed, clearTable, setTable, h, if_false]

end PhysicalMemory

namespace PageTable

/-- The entry is in use. -/
def presentFlag : UInt64 := 0x1

def writableFlag : UInt64 := 0x2

/-- Ring 3 may use what lies below the entry. -/
def userFlag : UInt64 := 0x4

/-- The entry maps a large page and leads to no table. -/
def hugeFlag : UInt64 := 0x80

/-- The bits of an entry that hold the address of a frame. -/
def addressMask : UInt64 := 0x000ffffffffff000

/-- The flags that the entries on the way take over from the mapping. -/
def parentMask : UInt64 := presentFlag ||| writableFlag ||| userFlag

/-- The bits of a word that an entry holds beside the address. -/
def flagsOf (w : UInt64) : UInt64 := w &&& ~~~addressMask

def isPresent (e : UInt64) : Bool := e &&& presentFlag != 0

def isHuge (e : UInt64) : Bool := e &&& hugeFlag != 0

/-- The frame that an entry leads to. -/
def frameOf (e : UInt64) : Frame := Frame.containing (e &&& addressMask).toNat

/-- The entry that leads to a frame. -/
def entryFor (f : Frame) (flags : UInt64) : UInt64 := UInt64.ofNat f.start ||| flags

/-- The flags of a mapping that the kernel makes. -/
def mappingFlags (user : Bool) : UInt64 :=
  presentFlag ||| writableFlag ||| (if user then userFlag else 0)

/-- Number of bits of a page number that pick the entry at one level. -/
def indexBits : Nat := 9

/-- The entry of a page in a table that has `below` levels of tables below it. -/
def index (page : Page) (below : Nat) : Fin tableLength :=
  ⟨(page.number >>> (indexBits * below)) % tableLength, Nat.mod_lt _ (by decide)⟩

/-- Levels of tables below the root. -/
def depth : Nat := 3

/-- The table that an entry leads to, if it leads to one. -/
def next? (e : UInt64) : Option Frame :=
  if isPresent e && !isHuge e then some (frameOf e) else none

/-- The table of the last level that a page's entry is in. -/
def lastTable? (m : PhysicalMemory) (page : Page) : (below : Nat) → (table : Frame) → Option Frame
  | 0, table => some table
  | below + 1, table =>
    match next? (m.entry table (index page (below + 1))) with
    | some table => lastTable? m page below table
    | none => none

/-- The page has an entry of the last level that is not zero. -/
def isMapped (m : PhysicalMemory) (root : Frame) (page : Page) : Bool :=
  match lastTable? m page depth root with
  | some table => m.entry table (index page 0) != 0
  | none => false

/-- The entries that a walk to a page meets, up to the first that leads to no table. -/
def walk (m : PhysicalMemory) (page : Page) : (below : Nat) → (table : Frame) → List UInt64
  | 0, table => [m.entry table (index page 0)]
  | below + 1, table =>
    let e := m.entry table (index page (below + 1))
    e :: match next? e with
      | some table => walk m page below table
      | none => []

/-- Prepares the entry of a page on the way to the last level: an unused one gets a table, any other
one the flags that it lacks. The answer is the table that it leads to. -/
def enter (flags : UInt64) (table : Frame) (i : Fin tableLength) (m : PhysicalMemory)
    (r : FrameReserve) : Except MapError Frame × PhysicalMemory × FrameReserve :=
  let e := m.entry table i
  if e = 0 then
    match r.allocate with
    | (none, r) => (.error .frameAllocationFailed, m, r)
    | (some f, r) => (.ok f, (m.set table i (entryFor f flags)).clearTable f, r)
  else
    let m := m.set table i (e ||| flags)
    if isHuge e then (.error .parentEntryHugePage, m, r) else (.ok (frameOf e), m, r)

/-- Maps a page to a frame below `table`, making the tables on the way. -/
def mapBelow (page : Page) (frame : Frame) (flags : UInt64) : (below : Nat) → (table : Frame) →
    PhysicalMemory → FrameReserve → Except MapError Unit × PhysicalMemory × FrameReserve
  | 0, table, m, r =>
    if m.entry table (index page 0) ≠ 0 then (.error .alreadyMapped, m, r)
    else (.ok (), m.set table (index page 0) (entryFor frame flags), r)
  | below + 1, table, m, r =>
    match enter (flags &&& parentMask) table (index page (below + 1)) m r with
    | (.error e, m, r) => (.error e, m, r)
    | (.ok table, m, r) => mapBelow page frame flags below table m r

/-- Maps a page to a frame. -/
def map (root : Frame) (page : Page) (frame : Frame) (flags : UInt64) (m : PhysicalMemory)
    (r : FrameReserve) : Except MapError Unit × PhysicalMemory × FrameReserve :=
  mapBelow page frame flags depth root m r

/-- Takes a page out. The answer is the frame that it was mapped to; tables stay. -/
def unmap (root : Frame) (page : Page) (m : PhysicalMemory) : Option Frame × PhysicalMemory :=
  match lastTable? m page depth root with
  | none => (none, m)
  | some table =>
    match next? (m.entry table (index page 0)) with
    | none => (none, m)
    | some f => (some f, m.set table (index page 0) 0)

end PageTable
end KernelCore
