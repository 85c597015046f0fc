import KernelCore.Trapframe

/-!
# System calls

A program calls the kernel with a number in `rax` and up to five arguments in other registers. The
answer is a word or an error, whose code goes back to the program as a negative number.
-/
namespace KernelCore

/-- The system calls that the kernel knows. -/
inductive SyscallNumber where
  | exit
  | read
  | write
  | windowOpen
  | drawText
  | fillRect
  | eventPoll
  | shellExec
  | getChar
  | unknown
  deriving DecidableEq, Repr

namespace SyscallNumber

def known : List SyscallNumber :=
  [.exit, .read, .write, .windowOpen, .drawText, .fillRect, .eventPoll, .shellExec, .getChar]

/-- The number by which a program names the call. -/
def value : SyscallNumber → Nat
  | .exit => 1
  | .read => 3
  | .write => 4
  | .windowOpen => 10
  | .drawText => 11
  | .fillRect => 12
  | .eventPoll => 13
  | .shellExec => 14
  | .getChar => 15
  | .unknown => 0xffffffffffffffff

/-- The call that a number names. -/
def ofValue (n : Nat) : SyscallNumber := (known.find? (·.value = n)).getD .unknown

/-- The name of a call in traces. -/
def label : SyscallNumber → String
  | .exit => "Exit"
  | .read => "Read"
  | .write => "Write"
  | .windowOpen => "GuiWindowOpen"
  | .drawText => "GuiDrawText"
  | .fillRect => "GuiFillRect"
  | .eventPoll => "GuiEventPoll"
  | .shellExec => "ShellExec"
  | .getChar => "TerminalGetChar"
  | .unknown => "Unknown"

theorem ofValue_value (n : SyscallNumber) : ofValue n.value = n := by cases n <;> rfl

end SyscallNumber

/-- Why a system call failed. -/
inductive SyscallError where
  | invalidSyscall
  | invalidArgument
  | permissionDenied
  | notImplemented
  | badFileDescriptor
  | noMemory
  | ioError
  deriving DecidableEq, Repr

namespace SyscallError

def all : List SyscallError :=
  [.invalidSyscall, .invalidArgument, .permissionDenied, .notImplemented, .badFileDescriptor,
    .noMemory, .ioError]

/-- The code that the program receives. -/
def code : SyscallError → Int
  | .invalidSyscall => -1
  | .invalidArgument => -22
  | .permissionDenied => -13
  | .notImplemented => -38
  | .badFileDescriptor => -9
  | .noMemory => -12
  | .ioError => -5

/-- The code as a register holds it, in two's complement. -/
def word (e : SyscallError) : UInt64 := 0 - UInt64.ofNat e.code.natAbs

def message : SyscallError → String
  | .invalidSyscall => "number outside the syscall table"
  | .invalidArgument => "invalid argument"
  | .permissionDenied => "permission denied"
  | .notImplemented => "no handler registered"
  | .badFileDescriptor => "bad file descriptor"
  | .noMemory => "out of memory"
  | .ioError => "I/O error"

def label : SyscallError → String
  | .invalidSyscall => "InvalidSyscall"
  | .invalidArgument => "InvalidArgument"
  | .permissionDenied => "PermissionDenied"
  | .notImplemented => "NotImplemented"
  | .badFileDescriptor => "BadFileDescriptor"
  | .noMemory => "NoMemory"
  | .ioError => "IoError"

end SyscallError

/-- One call: its number, its arguments, and whether a user program made it. -/
structure SyscallContext where
  number : UInt64
  arg0 : UInt64
  arg1 : UInt64
  arg2 : UInt64
  arg3 : UInt64
  arg4 : UInt64
  fromUser : Bool
  deriving DecidableEq, Repr

namespace SyscallContext

def ofFrame (f : Trapframe) : SyscallContext where
  number := f.rax
  arg0 := f.rbx
  arg1 := f.rcx
  arg2 := f.rdx
  arg3 := f.rsi
  arg4 := f.rdi
  fromUser := f.fromUser

def args (c : SyscallContext) : List UInt64 := [c.arg0, c.arg1, c.arg2, c.arg3, c.arg4]

def name (c : SyscallContext) : SyscallNumber := .ofValue c.number.toNat

/-- The call and its result as traces show them. -/
def text (c : SyscallContext) (result : Except SyscallError UInt64) : String :=
  c.name.label ++ "(" ++ ", ".intercalate (c.args.map fun a => hex a.toNat) ++ ") -> " ++
    match result with
    | .ok value => "Ok(" ++ toString value.toNat ++ ")"
    | .error e => "Err(" ++ e.label ++ ")"

end SyscallContext
end KernelCore
