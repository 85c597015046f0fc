import KernelCore.KernelStack
import KernelCore.Platform

/-!
# The flat machine

The simplest machine that the kernel can run on: a list of mappings and the contents of the frames,
without page tables. Frames are handed out one after the other and never twice. Limits and a fault
of `mapPage` can be set, so that every failure of the platform can be brought about.
-/
namespace KernelCore

structure Mapping where
  space : AddressSpace
  page : Page
  frame : Frame
  user : Bool
  deriving DecidableEq, Repr

structure FlatMachine where
  active : AddressSpace := ⟨0x1000⟩
  /-- The mappings, the last one first. -/
  mappings : List Mapping := []
  /-- The bytes that were stored in frames, the last ones first. -/
  stored : List (Frame × ByteMemory) := []
  framesTaken : Nat := 0
  spacesCreated : Nat := 0
  separate : Bool := false
  /-- New frames hold leftovers. -/
  dirty : Bool := false
  frameLimit : Option Nat := none
  spaceLimit : Option Nat := none
  /-- The call of `mapPage` that fails, counted from the next one, and its error. -/
  mapFault : Option (Nat × MapError) := none
  stackRoom : Bool := true
  stackRegion : Nat := KernelStack.defaultRegion
  faultAddress : UInt64 := 0
  /-- Memory that the kernel addresses directly. -/
  memory : ByteMemory := .filled 0

namespace FlatMachine

def firstFrame : Nat := 0x1000

/-- Below the roots of the separate spaces. -/
def spaceRegion : Nat := 0x100000

def leftover : UInt8 := 0xcc

/-- A limit on something is used up. -/
def exhausted (limit : Option Nat) (used : Nat) : Bool := limit.any (· ≤ used)

def lookup (m : FlatMachine) (space : AddressSpace) (page : Page) : Option Mapping :=
  m.mappings.find? fun e => e.space = space ∧ e.page = page

/-- The bytes of a frame, by their offset. -/
def contents (m : FlatMachine) (f : Frame) : ByteMemory :=
  match m.stored.find? fun e => e.1 = f with
  | some e => e.2
  | none => .filled 0

def setContents (m : FlatMachine) (f : Frame) (bytes : ByteMemory) : FlatMachine :=
  { m with stored := (f, bytes) :: m.stored }

@[simp] theorem contents_setContents_self (m : FlatMachine) (f : Frame) (bytes : ByteMemory) :
    (m.setContents f bytes).contents f = bytes := by simp [contents, setContents]

theorem contents_setContents_other (m : FlatMachine) {f g : Frame} (bytes : ByteMemory)
    (h : g ≠ f) : (m.setContents f bytes).contents g = m.contents g := by
  simp [contents, setContents, Ne.symm h]

def takeFrame (m : FlatMachine) : Option Frame × FlatMachine :=
  if exhausted m.frameLimit m.framesTaken then (none, m)
  else
    let f : Frame := ⟨firstFrame + m.framesTaken⟩
    (some f, { m.setContents f (.filled (if m.dirty then leftover else 0)) with
      framesTaken := m.framesTaken + 1 })

def newSpace (m : FlatMachine) : Except MapError AddressSpace × FlatMachine :=
  if exhausted m.spaceLimit m.spacesCreated then (.error .frameAllocationFailed, m)
  else if m.separate then
    (.ok ⟨spaceRegion + (m.spacesCreated + 1) * pageSize⟩,
      { m with spacesCreated := m.spacesCreated + 1 })
  else (.ok m.active, m)

/-- Counts a call of `mapPage` towards the one that is to fail. The answer is its error. -/
def countFault (m : FlatMachine) : Option MapError × FlatMachine :=
  match m.mapFault with
  | none => (none, m)
  | some (0, e) => (some e, { m with mapFault := none })
  | some (n + 1, e) => (none, { m with mapFault := some (n, e) })

def addMapping (space : AddressSpace) (page : Page) (frame : Frame) (user : Bool)
    (m : FlatMachine) : Except MapError Unit × FlatMachine :=
  match m.countFault with
  | (some e, m) => (.error e, m)
  | (none, m) =>
    if (m.lookup space page).isSome then (.error .alreadyMapped, m)
    else (.ok (), { m with mappings := ⟨space, page, frame, user⟩ :: m.mappings })

def removeMapping (space : AddressSpace) (page : Page) (m : FlatMachine) :
    Option Frame × FlatMachine :=
  ((m.lookup space page).map Mapping.frame,
    { m with mappings := m.mappings.filter fun e => ¬ (e.space = space ∧ e.page = page) })

/-- The part of the stored range that lies in `page`, laid over the bytes of its frame. -/
def overlay (page : Page) (a length : Nat) (content : Nat → UInt8) (bytes : ByteMemory) :
    ByteMemory :=
  ⟨fun o => if a ≤ page.start + o ∧ page.start + o < a + length
    then content (page.start + o - a) else bytes.byte o⟩

/-- Stores the part of a range that lies in the given pages of the active space, up to the first
page that is not mapped. The answer is the first address out of reach. -/
def storePages (a length : Nat) (content : Nat → UInt8) :
    List Page → FlatMachine → Option Nat × FlatMachine
  | [], m => (none, m)
  | page :: pages, m =>
    match m.lookup m.active page with
    | none => (some (max a page.start), m)
    | some e =>
      storePages a length content pages
        (m.setContents e.frame (overlay page a length content (m.contents e.frame)))

def storeThrough (a length : Nat) (content : Nat → UInt8) (m : FlatMachine) :
    Option Nat × FlatMachine :=
  storePages a length content (pagesTouched a length) m

/-- The bytes of a range that lie in the page of a mapping. -/
def readPage (m : FlatMachine) (a length : Nat) (e : Mapping) : List UInt8 :=
  let first := max a e.page.start
  let past := min (a + length) (e.page.start + pageSize)
  (m.contents e.frame).read (first - e.page.start) (past - first)

/-- The first of `count` pages from number `first` on that is not mapped. -/
def firstUnmapped (m : FlatMachine) (space : AddressSpace) : (count first : Nat) → Option Page
  | 0, _ => none
  | n + 1, first =>
    if (m.lookup space ⟨first⟩).isNone then some ⟨first⟩ else m.firstUnmapped space n (first + 1)

/-- Reads a range of a space. The error is the first address out of reach. -/
def readThrough (m : FlatMachine) (space : AddressSpace) (a length : Nat) :
    Except Nat (List UInt8) :=
  match m.firstUnmapped space (pageCount a length) (a / pageSize) with
  | some page => .error (max a page.start)
  | none =>
    .ok (((pagesTouched a length).filterMap (m.lookup space)).flatMap (m.readPage a length))

instance : Platform FlatMachine where
  allocateFrame := takeFrame
  releaseFrame _ m := (none, m)
  activeSpace m := m.active
  activate space m := { m with active := space }
  createSpace := newSpace
  releaseSpace _ m := (none, m)
  isMapped m space page := (m.lookup space page).isSome
  mapPage := addMapping
  unmapPage := removeMapping
  zeroRange a length m := m.storeThrough a length fun _ => 0
  copyIn a bytes m := m.storeThrough a bytes.size fun i => bytes.getD i 0
  hasStackRoom m := m.stackRoom
  stackRegion m := m.stackRegion
  endOfInterrupt _ m := m
  setKernelStack _ m := m
  readFaultAddress m := (m.faultAddress, m)
  dump _ m := m
  halt m := m
  memory m := m.memory
  setMemory memory m := { m with memory }
  note _ m := m

theorem lookup_some {m : FlatMachine} {space : AddressSpace} {page : Page} {e : Mapping}
    (h : m.lookup space page = some e) : e ∈ m.mappings ∧ e.space = space ∧ e.page = page := by
  have hp := List.find?_some h
  simp only [decide_eq_true_eq] at hp
  exact ⟨List.mem_of_find?_eq_some h, hp⟩

theorem lookup_none {m : FlatMachine} {space : AddressSpace} {page : Page} :
    m.lookup space page = none ↔ ∀ e ∈ m.mappings, ¬ (e.space = space ∧ e.page = page) := by
  simp [lookup]

/-- A page that was added is found with the frame and the flag it was given. -/
theorem lookup_addMapping {m : FlatMachine} {space : AddressSpace} {page : Page} {frame : Frame}
    {user : Bool} (h : (addMapping space page frame user m).1 = .ok ()) :
    (addMapping space page frame user m).2.lookup space page =
      some ⟨space, page, frame, user⟩ := by
  unfold addMapping at h ⊢
  cases hf : m.countFault with
  | mk error m' =>
    rw [hf] at h
    cases error with
    | some e => cases h
    | none =>
      simp only at h ⊢
      split at h
      · cases h
      · rename_i hl
        rw [if_neg hl]
        simp [lookup]

/-- Adding a page leaves all others. -/
theorem lookup_addMapping_other {m : FlatMachine} {space s : AddressSpace} {page q : Page}
    {frame : Frame} {user : Bool} (h : ¬ (s = space ∧ q = page)) :
    (addMapping space page frame user m).2.lookup s q = m.lookup s q := by
  have counted : m.countFault.2.lookup s q = m.lookup s q := by
    unfold countFault lookup
    split <;> rfl
  have apart : ¬ (space = s ∧ page = q) := fun same => h ⟨same.1.symm, same.2.symm⟩
  rw [← counted]
  unfold addMapping
  rcases m.countFault with ⟨_ | e, m'⟩
  · dsimp only
    split
    · rfl
    · simp [lookup, apart]
  · rfl

/-- A page that was taken out is not found any more. -/
theorem lookup_removeMapping (m : FlatMachine) (space : AddressSpace) (page : Page) :
    (removeMapping space page m).2.lookup space page = none := by
  rw [lookup_none]
  intro e he
  exact of_decide_eq_true (List.mem_filter.1 he).2

/-- Taking a page out leaves all others. -/
theorem lookup_removeMapping_other (m : FlatMachine) {space s : AddressSpace} {page q : Page}
    (h : ¬ (s = space ∧ q = page)) :
    (removeMapping space page m).2.lookup s q = m.lookup s q := by
  unfold lookup removeMapping
  rw [List.find?_filter]
  congr 1
  funext e
  by_cases he : e.space = s ∧ e.page = q
  · have : ¬ (e.space = space ∧ e.page = page) := by rw [he.1, he.2]; exact h
    simp [this]
  · simp [he]

end FlatMachine
end KernelCore
