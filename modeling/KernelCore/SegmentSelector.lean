/-!
# Segment selectors

The selectors that a process runs with. The lowest two bits are the requested privilege level.
-/
namespace KernelCore.SegmentSelector

def kernelCode : UInt16 := 0x08
def kernelData : UInt16 := 0x10
def userData : UInt16 := 0x18 ||| 3
def userCode : UInt16 := 0x20 ||| 3

def code (userland : Bool) : UInt16 := if userland then userCode else kernelCode

def data (userland : Bool) : UInt16 := if userland then userData else kernelData

end KernelCore.SegmentSelector
