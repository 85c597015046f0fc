import KernelCore.Address
import KernelCore.SyscallTable

/-!
# The handlers of the system calls

Each handler decodes the arguments of its call, checks the memory that they name, and passes the
work on to the services. Memory named by a program of ring 3 must lie in the user half; the kernel's
own callers may name any.
-/
namespace KernelCore.Handlers

/-- The longest text that a program can pass. -/
def maxStringLength : Nat := 256

/-- A call may use the `length` bytes from `a` on. -/
def rangeAllowed (c : SyscallContext) (a length : Nat) : Bool :=
  a ≠ 0 && a + length < wordLimit && (!c.fromUser || a + length ≤ userSpaceEnd)

def stringLimit (c : SyscallContext) (a : Nat) : Nat :=
  if c.fromUser then min maxStringLength (userSpaceEnd - a) else maxStringLength

/-- The text at `a`, up to the first zero byte or the longest length allowed. -/
def readString (c : SyscallContext) (a : Nat) (m : ByteMemory) : Except SyscallError String :=
  if c.fromUser && userSpaceEnd ≤ a then .error .invalidArgument
  else if !rangeAllowed c a (stringLimit c a) then .error .invalidArgument
  else
    match String.fromUTF8? (m.readUntilZero a (stringLimit c a)).toByteArray with
    | some text => .ok text
    | none => .error .invalidArgument

variable {δ : Type} [Services δ]

/-- Takes bytes from the console and stores them from `a` on, at most `count`, until the console has
none left. Answers with their number. -/
def readConsole : (count a : Nat) → Env δ → Nat × Env δ
  | 0, _, env => (0, env)
  | count + 1, a, env =>
    match Services.readChar env.services with
    | (none, services) => (0, { env with services })
    | (some b, services) =>
      let (n, env) := readConsole count (a + 1) ⟨env.memory.write a #[b], services⟩
      (n + 1, env)

/-- The program is done. The kernel takes note and lets it go on. -/
def exit : SyscallHandler δ := fun c env =>
  (.ok 0, SyscallTable.noteTo
    (.info ("syscall: exit(" ++ toString c.arg0.toUInt32.toInt32.toInt ++ ")")) env)

/-- Reads input: file descriptor, address and length. -/
def read : SyscallHandler δ := fun c env =>
  if c.arg0 ≠ 0 then (.error .badFileDescriptor, env)
  else if !rangeAllowed c c.arg1.toNat c.arg2.toNat then (.error .invalidArgument, env)
  else
    let (n, env) := readConsole c.arg2.toNat c.arg1.toNat env
    (.ok (UInt64.ofNat n), env)

/-- Writes output: file descriptor, address and length. -/
def write : SyscallHandler δ := fun c env =>
  if c.arg0 ≠ 1 ∧ c.arg0 ≠ 2 then (.error .badFileDescriptor, env)
  else if !rangeAllowed c c.arg1.toNat c.arg2.toNat then (.error .invalidArgument, env)
  else
    (.ok c.arg2, { env with
      services := Services.writeConsole (env.memory.read c.arg1.toNat c.arg2.toNat) env.services })

/-- One byte of input, or the largest word if there is none. -/
def getChar : SyscallHandler δ := fun _ env =>
  match Services.readChar env.services with
  | (some b, services) => (.ok b.toUInt64, { env with services })
  | (none, services) => (.ok 0xffffffffffffffff, { env with services })

/-- The lower half of a word as a signed number. -/
def coordinate (w : UInt64) : Int32 := w.toUInt32.toInt32

/-- Opens a window: its four measures and the address of its title. The answer is zero if the
service refuses. -/
def windowOpen : SyscallHandler δ := fun c env =>
  let rect : Rect :=
    ⟨coordinate c.arg0, coordinate c.arg1, coordinate c.arg2, coordinate c.arg3⟩
  match if c.arg4 = 0 then .ok "" else readString c c.arg4.toNat env.memory with
  | .error e => (.error e, env)
  | .ok title =>
    let (window, services) := Services.openWindow rect title env.services
    (.ok (window.getD 0), { env with services })

def drawn (done : Bool) : Except SyscallError UInt64 :=
  if done then .ok 0 else .error .invalidArgument

/-- Draws text: window, position, address of the text, colour. -/
def drawText : SyscallHandler δ := fun c env =>
  match readString c c.arg3.toNat env.memory with
  | .error e => (.error e, env)
  | .ok text =>
    let (done, services) :=
      Services.drawText c.arg0 (coordinate c.arg1) (coordinate c.arg2) text c.arg4.toUInt32
        env.services
    (drawn done, { env with services })

/-- The upper of two packed 16-bit numbers. -/
def upperHalf (w : UInt64) : Int32 := ((w >>> 16) &&& 0xffff).toUInt32.toInt32

/-- The lower of two packed 16-bit numbers. -/
def lowerHalf (w : UInt64) : Int32 := (w &&& 0xffff).toUInt32.toInt32

/-- Fills a rectangle: window, packed position, packed size, colour. -/
def fillRect : SyscallHandler δ := fun c env =>
  let rect : Rect :=
    ⟨upperHalf c.arg1, lowerHalf c.arg1, upperHalf c.arg2, lowerHalf c.arg2⟩
  let (done, services) := Services.fillRect c.arg0 rect c.arg3.toUInt32 env.services
  (drawn done, { env with services })

/-- Stores an event at `a`. -/
def storeEvent (e : WindowEvent) (a : Nat) (m : ByteMemory) : ByteMemory :=
  m.write a e.bytes.toArray

/-- Polls a window: its handle and the address for the event. The answer is one if an event was
stored. The program of a window that is gone finds the event that ends it. -/
def eventPoll : SyscallHandler δ := fun c env =>
  if c.arg1 = 0 then (.ok 0, env)
  else if !rangeAllowed c c.arg1.toNat WindowEvent.size then (.error .invalidArgument, env)
  else
    match Services.pollEvent c.arg0 env.services with
    | (.event e, services) => (.ok 1, ⟨storeEvent e c.arg1.toNat env.memory, services⟩)
    | (.noSuchWindow, services) => (.ok 0, ⟨storeEvent .quit c.arg1.toNat env.memory, services⟩)
    | (.empty, services) => (.ok 0, { env with services })

/-- Runs a command line, named by its address. -/
def shellExec : SyscallHandler δ := fun c env =>
  match readString c c.arg0.toNat env.memory with
  | .error e => (.error e, env)
  | .ok line => (.ok 0, { env with services := Services.execute line env.services })

/-- The handler of every known system call. -/
def all : List (SyscallNumber × SyscallHandler δ) :=
  [(.exit, exit), (.read, read), (.write, write), (.windowOpen, windowOpen),
    (.drawText, drawText), (.fillRect, fillRect), (.eventPoll, eventPoll),
    (.shellExec, shellExec), (.getChar, getChar)]

/-- Installs handlers, up to the first that does not fit into the table. -/
def registerEach : List (SyscallNumber × SyscallHandler δ) → SyscallTable δ →
    Except SyscallError Unit × SyscallTable δ
  | [], t => (.ok (), t)
  | (number, handler) :: rest, t =>
    match t.register number.value handler with
    | (.ok (), t) => registerEach rest t
    | (.error e, t) => (.error e, t)

/-- Installs the handlers of all known system calls. -/
def registerAll (t : SyscallTable δ) (services : δ) :
    Except SyscallError Unit × SyscallTable δ × δ :=
  match registerEach all t with
  | (.error e, t) => (.error e, t, services)
  | (.ok (), t) =>
    (.ok (), t, Journal.note (.debug ("syscall: " ++
      toString (all (δ := δ)).length ++ " handlers registered")) services)

end KernelCore.Handlers
