import KernelCore.KernelStack
import KernelCore.PageTable
import KernelCore.Platform

/-!
# The paging machine

The machine that the kernel boots on: page tables in physical memory, a reserve of frames, the
register that names the active root table, and a serial line for reports.
-/
namespace KernelCore

structure PagingMachine where
  tables : PhysicalMemory := .zeros
  reserve : FrameReserve := {}
  root : Frame := ⟨1⟩
  /-- Where the boot loader mapped physical memory. -/
  physicalOffset : Nat := 0
  stackRoom : Bool := true
  stackRegion : Nat := KernelStack.defaultRegion
  faultAddress : UInt64 := 0
  memory : ByteMemory := .filled 0
  /-- What was written to the serial line. -/
  serial : String := ""

namespace PagingMachine

/-- Takes the memory map over from the boot loader. Where physical memory is mapped is known from
then on, even if there is no memory to use. -/
def init (offset : Option Nat) (regions : List MemoryRegion) (m : PagingMachine) :
    Except PoolError Notice × PagingMachine :=
  match offset with
  | none => (.error .noPhysicalWindow, m)
  | some offset =>
    match FrameReserve.choosePool regions with
    | .error e => (.error e, { m with physicalOffset := offset })
    | .ok (start, past) =>
      (.ok (.info ("memory: frame pool " ++ hex start ++ ".." ++ hex past ++
          ", physical window at " ++ hex offset)),
        { m with physicalOffset := offset
                 reserve := { m.reserve with next := start, limit := past } })

/-- The root table of a space. -/
def rootOf (space : AddressSpace) : Frame := Frame.containing space.root

def spaceOf (root : Frame) : AddressSpace := ⟨root.start⟩

def takeFrame (m : PagingMachine) : Option Frame × PagingMachine :=
  let (f, reserve) := m.reserve.allocate
  (f, { m with reserve })

def putFrame (f : Frame) (m : PagingMachine) : Option Frame × PagingMachine :=
  let (dropped, reserve) := m.reserve.release f
  (dropped, { m with reserve })

/-- A new root table with the entries of the active one. -/
def newSpace (m : PagingMachine) : Except MapError AddressSpace × PagingMachine :=
  match m.takeFrame with
  | (none, m) => (.error .frameAllocationFailed, m)
  | (some f, m) =>
    (.ok (spaceOf f), { m with tables := (m.tables.clearTable f).copyUsed m.root f })

/-- Takes the root table of a space back. The active space stays. -/
def dropSpace (space : AddressSpace) (m : PagingMachine) : Option Frame × PagingMachine :=
  if space = spaceOf m.root then (none, m) else m.putFrame (rootOf space)

def mapWith (space : AddressSpace) (page : Page) (frame : Frame) (flags : UInt64)
    (m : PagingMachine) : Except MapError Unit × PagingMachine :=
  let (result, tables, reserve) := PageTable.map (rootOf space) page frame flags m.tables m.reserve
  (result, { m with tables, reserve })

def removePage (space : AddressSpace) (page : Page) (m : PagingMachine) :
    Option Frame × PagingMachine :=
  let (f, tables) := PageTable.unmap (rootOf space) page m.tables
  (f, { m with tables })

/-- The entries on the way to a page, from the root table on. -/
def walk (m : PagingMachine) (space : AddressSpace) (page : Page) : List UInt64 :=
  PageTable.walk m.tables page PageTable.depth (rootOf space)

instance : Platform PagingMachine where
  allocateFrame := takeFrame
  releaseFrame := putFrame
  activeSpace m := spaceOf m.root
  activate space m := { m with root := rootOf space }
  createSpace := newSpace
  releaseSpace := dropSpace
  isMapped m space page := PageTable.isMapped m.tables (rootOf space) page
  mapPage space page frame user := mapWith space page frame (PageTable.mappingFlags user)
  unmapPage := removePage
  zeroRange a length m := (none, { m with memory := m.memory.fill a length 0 })
  copyIn a bytes m := (none, { m with memory := m.memory.write a bytes })
  hasStackRoom m := m.stackRoom
  stackRegion m := m.stackRegion
  endOfInterrupt _ m := m
  setKernelStack _ m := m
  readFaultAddress m := (m.faultAddress, m)
  dump report m := { m with serial := m.serial ++ "\n" ++ report.text ++ "\n" }
  halt m := m
  memory m := m.memory
  setMemory memory m := { m with memory }
  note _ m := m

end PagingMachine
end KernelCore
