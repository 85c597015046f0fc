/-!
# The timer divisor

The interval timer divides a base frequency by a 16-bit counter. Zero is never programmed, since
the chip takes it for the longest interval.
-/
namespace KernelCore.TimerDivisor

/-- The frequency that the timer divides, in hertz. -/
def baseFrequency : Nat := 1193180

/-- Ticks a second of the kernel's timer. -/
def tickFrequency : Nat := 100

def maximum : Nat := 65535

/-- The divisor that comes closest to `hertz` ticks a second from above, within the counter. -/
def forFrequency (hertz : Nat) : Nat :=
  if hertz = 0 then maximum else min (max (baseFrequency / hertz) 1) maximum

end KernelCore.TimerDivisor
