import KernelCore.Address

/-!
# Address spaces

An address space is named by the physical address of its top-level page table, which is the
value that makes it the active one. `MapError` lists why a page could not be mapped into one.
-/
namespace KernelCore

/-- The top-level page table that a process runs in. -/
structure AddressSpace where
  root : Nat
  deriving DecidableEq, Repr

/-- The text of a space, as log lines and listings show it. -/
def AddressSpace.label (s : AddressSpace) : String := "cr3=" ++ hex s.root

/-- Why a page was not mapped. -/
inductive MapError where
  | frameAllocationFailed
  | alreadyMapped
  | parentEntryHugePage
  deriving DecidableEq, Repr

def MapError.all : List MapError := [.frameAllocationFailed, .alreadyMapped, .parentEntryHugePage]

def MapError.label : MapError → String
  | .frameAllocationFailed => "FrameAllocationFailed"
  | .alreadyMapped => "AlreadyMapped"
  | .parentEntryHugePage => "ParentEntryHugePage"

def MapError.message : MapError → String
  | .frameAllocationFailed => "frame allocation failed"
  | .alreadyMapped => "page already mapped"
  | .parentEntryHugePage => "parent entry is a huge page"

end KernelCore
