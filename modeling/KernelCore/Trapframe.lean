import KernelCore.Hexadecimal
import KernelCore.LittleEndian

/-!
# Trap frames

The registers that a trap saves, in the order in which they lie on the stack. `Register` names
them one by one, `get` and `set` reach them by name, `bytes` is the frame as it lies in memory and
`text` the frame as a fault report shows it.
-/
namespace KernelCore

/-- The saved state of the interrupted program, lowest address first. The last five words are
pushed by the processor, the others by the entry code. -/
structure Trapframe where
  ds : UInt64 := 0
  r15 : UInt64 := 0
  r14 : UInt64 := 0
  r13 : UInt64 := 0
  r12 : UInt64 := 0
  r11 : UInt64 := 0
  r10 : UInt64 := 0
  r9 : UInt64 := 0
  r8 : UInt64 := 0
  rdi : UInt64 := 0
  rsi : UInt64 := 0
  rbp : UInt64 := 0
  rbx : UInt64 := 0
  rdx : UInt64 := 0
  rcx : UInt64 := 0
  rax : UInt64 := 0
  vector : UInt64 := 0
  errorCode : UInt64 := 0
  rip : UInt64 := 0
  cs : UInt64 := 0
  rflags : UInt64 := 0
  rsp : UInt64 := 0
  ss : UInt64 := 0
  deriving DecidableEq, Repr

/-- The registers of a trap frame. -/
inductive Register where
  | ds | r15 | r14 | r13 | r12 | r11 | r10 | r9 | r8 | rdi | rsi | rbp | rbx | rdx | rcx | rax
  | vector | errorCode | rip | cs | rflags | rsp | ss
  deriving DecidableEq, Repr

namespace Register

def all : List Register :=
  [.ds, .r15, .r14, .r13, .r12, .r11, .r10, .r9, .r8, .rdi, .rsi, .rbp, .rbx, .rdx, .rcx, .rax,
    .vector, .errorCode, .rip, .cs, .rflags, .rsp, .ss]

/-- The general-purpose registers, in the order in which reports list them. -/
def general : List Register :=
  [.rax, .rbx, .rcx, .rdx, .rsi, .rdi, .rbp, .r8, .r9, .r10, .r11, .r12, .r13, .r14, .r15]

def name : Register → String
  | .ds => "ds" | .r15 => "r15" | .r14 => "r14" | .r13 => "r13" | .r12 => "r12" | .r11 => "r11"
  | .r10 => "r10" | .r9 => "r9" | .r8 => "r8" | .rdi => "rdi" | .rsi => "rsi" | .rbp => "rbp"
  | .rbx => "rbx" | .rdx => "rdx" | .rcx => "rcx" | .rax => "rax" | .vector => "vector"
  | .errorCode => "error_code" | .rip => "rip" | .cs => "cs" | .rflags => "rflags" | .rsp => "rsp"
  | .ss => "ss"

theorem mem_all (r : Register) : r ∈ all := by cases r <;> decide

end Register

/-- Interrupts enabled, and the bit that is always one. -/
def interruptsEnabled : UInt64 := 0x202

namespace Trapframe

def size : Nat := 184

/-- A frame as the entry code builds it for `vector` over cleared registers. -/
def forVector (vector : UInt8) : Trapframe := { vector := vector.toUInt64 }

def get (f : Trapframe) : Register → UInt64
  | .ds => f.ds | .r15 => f.r15 | .r14 => f.r14 | .r13 => f.r13 | .r12 => f.r12 | .r11 => f.r11
  | .r10 => f.r10 | .r9 => f.r9 | .r8 => f.r8 | .rdi => f.rdi | .rsi => f.rsi | .rbp => f.rbp
  | .rbx => f.rbx | .rdx => f.rdx | .rcx => f.rcx | .rax => f.rax | .vector => f.vector
  | .errorCode => f.errorCode | .rip => f.rip | .cs => f.cs | .rflags => f.rflags | .rsp => f.rsp
  | .ss => f.ss

def set (f : Trapframe) (r : Register) (value : UInt64) : Trapframe :=
  match r with
  | .ds => { f with ds := value }
  | .r15 => { f with r15 := value }
  | .r14 => { f with r14 := value }
  | .r13 => { f with r13 := value }
  | .r12 => { f with r12 := value }
  | .r11 => { f with r11 := value }
  | .r10 => { f with r10 := value }
  | .r9 => { f with r9 := value }
  | .r8 => { f with r8 := value }
  | .rdi => { f with rdi := value }
  | .rsi => { f with rsi := value }
  | .rbp => { f with rbp := value }
  | .rbx => { f with rbx := value }
  | .rdx => { f with rdx := value }
  | .rcx => { f with rcx := value }
  | .rax => { f with rax := value }
  | .vector => { f with vector := value }
  | .errorCode => { f with errorCode := value }
  | .rip => { f with rip := value }
  | .cs => { f with cs := value }
  | .rflags => { f with rflags := value }
  | .rsp => { f with rsp := value }
  | .ss => { f with ss := value }

@[simp] theorem get_set_self (f : Trapframe) (r : Register) (value : UInt64) :
    (f.set r value).get r = value := by cases r <;> rfl

theorem get_set_other (f : Trapframe) {r s : Register} (value : UInt64) (h : s ≠ r) :
    (f.set r value).get s = f.get s := by
  cases r <;> cases s <;> first | rfl | exact absurd rfl h

/-- Frames that agree in every register are equal. -/
theorem ext_get {f g : Trapframe} (h : ∀ r, f.get r = g.get r) : f = g := by
  cases f; cases g
  simp only [mk.injEq]
  exact ⟨h .ds, h .r15, h .r14, h .r13, h .r12, h .r11, h .r10, h .r9, h .r8, h .rdi, h .rsi,
    h .rbp, h .rbx, h .rdx, h .rcx, h .rax, h .vector, h .errorCode, h .rip, h .cs, h .rflags,
    h .rsp, h .ss⟩

/-- Requested privilege level of the interrupted code segment. -/
def ring (f : Trapframe) : Nat := f.cs.toNat % 4

def fromUser (f : Trapframe) : Bool := f.ring == 3

/-- The registers that are not zero, with their values, in stack order. -/
def nonZero (f : Trapframe) : List (Register × UInt64) :=
  (Register.all.map fun r => (r, f.get r)).filter fun (_, value) => value ≠ 0

/-- The words of a frame in stack order. -/
def words (f : Trapframe) : List UInt64 := Register.all.map f.get

def bytes (f : Trapframe) : List UInt8 := f.words.flatMap fun w => LittleEndian.toBytes 8 w.toNat

/-- The registers that a report shows on its first line, each behind its label. -/
def headline (f : Trapframe) : String :=
  "vector=" ++ hex f.vector.toNat ++ " error=" ++ hex f.errorCode.toNat ++
    " rip=" ++ wordHex f.rip.toNat ++ " cs=" ++ hex f.cs.toNat ++
    " rflags=" ++ hex f.rflags.toNat ++ " rsp=" ++ wordHex f.rsp.toNat ++
    " ss=" ++ hex f.ss.toNat ++ " ds=" ++ hex f.ds.toNat ++ "\n"

/-- One register of the listing: its name right-aligned in three columns, then its value. -/
def registerText (f : Trapframe) (r : Register) : String :=
  String.ofList (padLeft ' ' 3 r.name.toList) ++ "=" ++ wordHex (f.get r).toNat

/-- The frame as reports show it: a first line, then the general registers, four to a line. An
entry that does not end its line is followed by two spaces. -/
def text (f : Trapframe) : String :=
  f.headline ++ String.join (Register.general.zipIdx.map fun (r, i) =>
    f.registerText r ++ if i % 4 = 3 then "\n" else "  ")

end Trapframe
end KernelCore
