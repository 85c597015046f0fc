/-!
# Line masks

The mask bytes of the two chained interrupt controllers. A set bit keeps a line silent. The second
controller reports through line 2 of the first one, so enabling any of its lines opens that one.
-/
namespace KernelCore

/-- The mask of the first controller, lines 0 to 7, and of the second one, lines 8 to 15. -/
structure LineMasks where
  primary : UInt8
  secondary : UInt8
  deriving DecidableEq, Repr

namespace LineMasks

/-- The line of the first controller on which the second one reports. -/
def cascadeLine : UInt8 := 2

def allMasked : LineMasks := ⟨0xff, 0xff⟩

/-- Clears the mask bit of one line. There is nothing to clear for a line past the fifteenth. -/
def enable (m : LineMasks) (line : UInt8) : LineMasks :=
  if line < 8 then { m with primary := m.primary &&& ~~~(1 <<< line) }
  else if line < 16 then
    { primary := m.primary &&& ~~~(1 <<< cascadeLine)
      secondary := m.secondary &&& ~~~(1 <<< (line - 8)) }
  else m

/-- The masks that leave exactly `lines` enabled. -/
def forLines (lines : List UInt8) : LineMasks := lines.foldl enable allMasked

end LineMasks
end KernelCore
