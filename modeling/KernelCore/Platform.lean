import KernelCore.AddressSpace
import KernelCore.ByteMemory
import KernelCore.FaultReport
import KernelCore.Notice

/-!
# The platform

What the kernel asks of the machine below it: physical frames and address spaces, the processor,
and a journal. Every operation that may change the machine takes its state and answers with the
state after it, so that a theorem about the kernel holds for every machine.
-/
namespace KernelCore

class MemoryManager (π : Type) where
  /-- A frame nobody uses, if there is one left. -/
  allocateFrame : π → Option Frame × π
  /-- Takes a frame back. The answer is the frame if there was no room to keep it. -/
  releaseFrame : Frame → π → Option Frame × π
  activeSpace : π → AddressSpace
  activate : AddressSpace → π → π
  /-- A space in which the kernel's own pages are mapped. -/
  createSpace : π → Except MapError AddressSpace × π
  /-- Takes a space back that never ran. The answer is as for `releaseFrame`. -/
  releaseSpace : AddressSpace → π → Option Frame × π
  isMapped : π → AddressSpace → Page → Bool
  mapPage : (space : AddressSpace) → Page → Frame → (user : Bool) → π → Except MapError Unit × π
  /-- Takes a page out of a space. The answer is the frame that it was mapped to. -/
  unmapPage : AddressSpace → Page → π → Option Frame × π
  /-- Clears memory of the active space. The answer is the first address out of reach. -/
  zeroRange : (address length : Nat) → π → Option Nat × π
  /-- Fills memory of the active space. The answer is the first address out of reach. -/
  copyIn : (address : Nat) → Array UInt8 → π → Option Nat × π
  /-- The kernel's heap has room for one more stack. -/
  hasStackRoom : π → Bool
  /-- Where the stacks of the processes lie. -/
  stackRegion : π → Nat

/-- The processor, the interrupt controller and memory that the kernel addresses directly. -/
class Processor (π : Type) where
  endOfInterrupt : (line : Nat) → π → π
  /-- Sets the stack on which traps from ring 3 arrive. -/
  setKernelStack : (top : Nat) → π → π
  readFaultAddress : π → UInt64 × π
  dump : FaultReport → π → π
  halt : π → π
  memory : π → ByteMemory
  setMemory : ByteMemory → π → π

/-- All that the kernel asks of a machine. -/
class Platform (π : Type) extends MemoryManager π, Processor π, Journal π

export MemoryManager (allocateFrame releaseFrame activeSpace activate createSpace releaseSpace
  isMapped mapPage unmapPage zeroRange copyIn hasStackRoom stackRegion)
export Processor (endOfInterrupt setKernelStack readFaultAddress dump halt memory setMemory)
export Journal (note)

variable {π : Type} [Platform π]

/-- Notes a frame that was lost because there was no room to keep it. -/
def noteDropped : Option Frame × π → π
  | (none, p) => p
  | (some f, p) => note (.warn ("memory: recycle list full, dropping frame " ++ hex f.start)) p

def giveBack (f : Frame) (p : π) : π := noteDropped (releaseFrame f p)

def giveBackSpace (space : AddressSpace) (p : π) : π := noteDropped (releaseSpace space p)

/-- Takes pages out of a space, in order, and gives their frames back. -/
def unmapAndFree (space : AddressSpace) : List Page → π → π
  | [], p => p
  | page :: pages, p =>
    match unmapPage space page p with
    | (none, p) => unmapAndFree space pages p
    | (some f, p) => unmapAndFree space pages (giveBack f p)

/-- Maps a page to a fresh frame. A frame that could not be mapped is given back. The error is
`none` if there was no frame. -/
def mapFresh (space : AddressSpace) (page : Page) (user : Bool) (p : π) :
    Except (Option MapError) Unit × π :=
  match allocateFrame p with
  | (none, p) => (.error none, p)
  | (some f, p) =>
    match mapPage space page f user p with
    | (.ok (), p) => (.ok (), p)
    | (.error e, p) => (.error (some e), giveBack f p)

/-- Maps the given pages to fresh frames, in order, except those that `keep` accepts when their
turn comes. If one of them cannot be mapped, those mapped before it, which `mapped` lists from the
last one on, are taken out again in order and their frames given back. -/
def mapAllFresh (space : AddressSpace) (user : Bool) (keep : π → Page → Bool) :
    (pages mapped : List Page) → π → Except (Option MapError) Unit × π
  | [], _, p => (.ok (), p)
  | page :: pages, mapped, p =>
    if keep p page then mapAllFresh space user keep pages mapped p
    else
      match mapFresh space page user p with
      | (.ok (), p) => mapAllFresh space user keep pages (page :: mapped) p
      | (.error e, p) => (.error e, unmapAndFree space mapped.reverse p)

end KernelCore
