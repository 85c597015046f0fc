import KernelCore.Proofs.TableRuns
import KernelCore.Trace

/-!
# Machines that are watched

A machine that is watched answers every call as the machine inside does, and whatever is kept about
the calls has no part in it. So the process table does with a watched machine what it does with the
one inside, call by call.
-/
namespace KernelCore

/-- Every call to the outer machine is made to the inner one, and answered as that answers it. -/
structure Watches {π ρ : Type} [Platform π] [Platform ρ] (inner : π → ρ) : Prop where
  inner_allocateFrame (p : π) : allocateFrame (inner p) = (allocateFrame p).map id inner
  inner_releaseFrame (f : Frame) (p : π) :
    releaseFrame f (inner p) = (releaseFrame f p).map id inner
  inner_activeSpace (p : π) : activeSpace (inner p) = activeSpace p
  inner_activate (space : AddressSpace) (p : π) :
    activate space (inner p) = inner (activate space p)
  inner_createSpace (p : π) : createSpace (inner p) = (createSpace p).map id inner
  inner_releaseSpace (space : AddressSpace) (p : π) :
    releaseSpace space (inner p) = (releaseSpace space p).map id inner
  inner_isMapped (p : π) (space : AddressSpace) (page : Page) :
    isMapped (inner p) space page = isMapped p space page
  inner_mapPage (space : AddressSpace) (page : Page) (frame : Frame) (user : Bool) (p : π) :
    mapPage space page frame user (inner p) = (mapPage space page frame user p).map id inner
  inner_unmapPage (space : AddressSpace) (page : Page) (p : π) :
    unmapPage space page (inner p) = (unmapPage space page p).map id inner
  inner_zeroRange (address length : Nat) (p : π) :
    zeroRange address length (inner p) = (zeroRange address length p).map id inner
  inner_copyIn (address : Nat) (bytes : Array UInt8) (p : π) :
    copyIn address bytes (inner p) = (copyIn address bytes p).map id inner
  inner_hasStackRoom (p : π) : hasStackRoom (inner p) = hasStackRoom p
  inner_stackRegion (p : π) : stackRegion (inner p) = stackRegion p
  inner_setKernelStack (top : Nat) (p : π) :
    setKernelStack top (inner p) = inner (setKernelStack top p)
  inner_note (n : Notice) (p : π) : note n (inner p) = inner (note n p)

theorem Traced.watches {π : Type} [Platform π] : Watches (Traced.machine (π := π)) := by
  constructor <;> intros <;> rfl

namespace Watches

variable {π ρ : Type} [Platform π] [Platform ρ] {inner : π → ρ}

theorem inner_noteDropped (w : Watches inner) (dropped : Option Frame × π) :
    noteDropped (dropped.map id inner) = inner (noteDropped dropped) := by
  obtain ⟨_ | f, p⟩ := dropped
  · rfl
  · exact w.inner_note _ p

theorem inner_giveBack (w : Watches inner) (f : Frame) (p : π) :
    giveBack f (inner p) = inner (giveBack f p) := by
  rw [giveBack, w.inner_releaseFrame, w.inner_noteDropped, giveBack]

theorem inner_giveBackSpace (w : Watches inner) (space : AddressSpace) (p : π) :
    giveBackSpace space (inner p) = inner (giveBackSpace space p) := by
  rw [giveBackSpace, w.inner_releaseSpace, w.inner_noteDropped, giveBackSpace]

theorem inner_unmapAndFree (w : Watches inner) (space : AddressSpace) (pages : List Page) (p : π) :
    unmapAndFree space pages (inner p) = inner (unmapAndFree space pages p) := by
  induction pages generalizing p with
  | nil => rfl
  | cons page pages ih =>
    rw [unmapAndFree, unmapAndFree, w.inner_unmapPage]
    rcases unmapPage space page p with ⟨_ | f, q⟩
    · exact ih q
    · exact (congrArg _ (w.inner_giveBack f q)).trans (ih _)

theorem inner_mapFresh (w : Watches inner) (space : AddressSpace) (page : Page) (user : Bool)
    (p : π) : mapFresh space page user (inner p) = (mapFresh space page user p).map id inner := by
  rw [mapFresh, mapFresh, w.inner_allocateFrame]
  rcases allocateFrame p with ⟨_ | f, q⟩
  · rfl
  · dsimp only [Prod.map, id]
    rw [w.inner_mapPage]
    rcases mapPage space page f user q with ⟨e | _, r⟩
    · exact congrArg (Prod.mk _) (w.inner_giveBack f r)
    · rfl

theorem inner_mapAllFresh (w : Watches inner) (space : AddressSpace) (user : Bool)
    {keep : π → Page → Bool} {keep' : ρ → Page → Bool}
    (same : ∀ p page, keep' (inner p) page = keep p page) (pages mapped : List Page) (p : π) :
    mapAllFresh space user keep' pages mapped (inner p) =
      (mapAllFresh space user keep pages mapped p).map id inner := by
  induction pages generalizing mapped p with
  | nil => rfl
  | cons page pages ih =>
    rw [mapAllFresh, mapAllFresh, same, w.inner_mapFresh]
    split
    · exact ih mapped p
    · rcases mapFresh space page user p with ⟨e | _, q⟩
      · exact congrArg (Prod.mk _) (w.inner_unmapAndFree space mapped.reverse q)
      · exact ih (page :: mapped) q

theorem inner_mapStack (w : Watches inner) (userland : Bool) (space : AddressSpace)
    (slot : Fin maxProcesses) (p : π) :
    ProcessTable.mapStack userland space slot (inner p) =
      (ProcessTable.mapStack userland space slot p).map id inner := by
  rw [ProcessTable.mapStack, ProcessTable.mapStack, UserStack.map, UserStack.map,
    w.inner_mapAllFresh space true fun p => w.inner_isMapped p space]
  split
  · rcases mapAllFresh space true (fun p page => isMapped p space page)
      (UserStack.pages slot) [] p with ⟨e | _, q⟩ <;> rfl
  · rfl

theorem inner_create (w : Watches inner) (t : ProcessTable) (name : String) (entry : Nat)
    (userland : Bool) (p : π) : t.create name entry userland (inner p) =
      (t.create name entry userland p).map id (Prod.map id inner) := by
  rw [ProcessTable.create, ProcessTable.create, w.inner_hasStackRoom, w.inner_createSpace]
  split
  · rfl
  · rename_i slot _
    split
    · rfl
    · split
      · rfl
      · rcases createSpace p with ⟨e | space, q⟩
        · rfl
        · dsimp only [Prod.map, id]
          rw [w.inner_mapStack]
          rcases ProcessTable.mapStack userland space slot q with ⟨e | top, r⟩
          · exact congrArg (fun r => (_, t, r)) (w.inner_giveBackSpace space r)
          · dsimp only [Prod.map, id]
            rw [w.inner_stackRegion, w.inner_note]

theorem inner_fillSegment (w : Watches inner) (image : ExecutableImage) (s : Segment) (p : π) :
    image.fillSegment s (inner p) = inner (image.fillSegment s p) := by
  rw [ExecutableImage.fillSegment, ExecutableImage.fillSegment, w.inner_zeroRange]
  dsimp only [Prod.map]
  rw [w.inner_copyIn, ← w.inner_note]
  dsimp only [Prod.map]
  split <;> rfl

theorem inner_fillSegments (w : Watches inner) (image : ExecutableImage) (segments : List Segment)
    (p : π) : segments.foldl (fun p s => image.fillSegment s p) (inner p) =
      inner (segments.foldl (fun p s => image.fillSegment s p) p) := by
  induction segments generalizing p with
  | nil => rfl
  | cons s segments ih =>
    rw [List.foldl_cons, List.foldl_cons, w.inner_fillSegment, ih]

theorem inner_load (w : Watches inner) (image : ExecutableImage) (space : AddressSpace)
    (user : Bool) (p : π) : image.load space user (inner p) = (image.load space user p).map id inner := by
  have mapped : isMapped (inner p) space = isMapped p space := funext (w.inner_isMapped p space)
  rw [ExecutableImage.load, ExecutableImage.load, mapped]
  split
  · rfl
  · rfl
  · rename_i entry segments _
    dsimp only
    rw [w.inner_mapAllFresh space user fun _ _ => rfl]
    rcases mapAllFresh space user (fun _ _ => false)
      (ExecutableImage.freshPages [] segments) [] p with ⟨e | _, q⟩
    · rfl
    · exact congrArg (Prod.mk _) (w.inner_fillSegments image segments q)

theorem inner_enter (w : Watches inner) (space : AddressSpace) (p : π) :
    ProcessTable.enter space (inner p) = inner (ProcessTable.enter space p) := by
  rw [ProcessTable.enter, ProcessTable.enter, w.inner_activeSpace, w.inner_activate,
    apply_ite inner]

theorem inner_loadInto (w : Watches inner) (image : ExecutableImage) (space : AddressSpace)
    (userland : Bool) (p : π) : ProcessTable.loadInto image space userland (inner p) =
      (ProcessTable.loadInto image space userland p).map id inner := by
  have back (q : π) : (if activeSpace p = space then inner q else
      activate (activeSpace p) (inner q)) =
        inner (if activeSpace p = space then q else activate (activeSpace p) q) := by
    rw [w.inner_activate, apply_ite inner]
  rw [ProcessTable.loadInto, ProcessTable.loadInto, w.inner_enter, w.inner_load,
    w.inner_activeSpace]
  rcases image.load space userland (ProcessTable.enter space p) with ⟨info | e | _, q⟩
  · exact congrArg (Prod.mk _) (back q)
  · exact congrArg (Prod.mk _) (back q)
  · rfl

theorem inner_loadAndRun (w : Watches inner) (t : ProcessTable) (h : ProcessHandle)
    (image : ExecutableImage) (p : π) : t.loadAndRun h image (inner p) =
      (t.loadAndRun h image p).map id (Prod.map id inner) := by
  rw [ProcessTable.loadAndRun, ProcessTable.loadAndRun]
  split
  · rfl
  · rename_i q _
    split
    · rfl
    · rw [w.inner_loadInto]
      rcases ProcessTable.loadInto image q.space q.userland p with ⟨info | e | _, r⟩
      · dsimp only [Prod.map, id]
        split
        · rfl
        · rw [w.inner_note]
      · dsimp only [Prod.map, id]
        rw [w.inner_note]
      · rfl

theorem inner_reap (w : Watches inner) (t : ProcessTable) (p : π) :
    t.reap (inner p) = (t.reap p).map id (Prod.map id inner) := by
  have notes (slots : List (Fin maxProcesses)) (text : Fin maxProcesses → Notice) (p : π) :
      slots.foldl (fun p s => note (text s) p) (inner p) =
        inner (slots.foldl (fun p s => note (text s) p) p) := by
    induction slots generalizing p with
    | nil => rfl
    | cons s slots ih => rw [List.foldl_cons, List.foldl_cons, w.inner_note, ih]
  exact congrArg (fun q => (_, _, q)) (notes _ _ p)

theorem inner_switchMachine (w : Watches inner) (old new : Process) (p : π) :
    ProcessTable.switchMachine old new (inner p) =
      inner (ProcessTable.switchMachine old new p) := by
  rw [ProcessTable.switchMachine, ProcessTable.switchMachine, w.inner_activate, ← w.inner_note,
    ← apply_ite inner]
  split
  · rw [w.inner_setKernelStack]
  · rfl

theorem inner_schedule (w : Watches inner) (t : ProcessTable) (place : FramePlace) (p : π) :
    t.schedule place (inner p) = (t.schedule place p).map id (Prod.map id inner) := by
  rw [ProcessTable.schedule, ProcessTable.schedule]
  split
  · rfl
  · split
    · rfl
    · split
      · split
        · rfl
        · exact congrArg (fun q => (_, _, q)) (w.inner_switchMachine _ _ p)
      · rfl

end Watches

namespace TableState

variable {π ρ : Type} [Platform π] [Platform ρ] {inner : π → ρ}

/-- The table with the inner machine below it. -/
def unwatched (inner : π → ρ) (s : TableState π) : TableState ρ := ⟨s.table, inner s.machine⟩

/-- A table on a watched machine behaves as on the machine inside. -/
theorem perform_unwatched (w : Watches inner) (s : TableState π) (op : Operation) :
    (s.unwatched inner).perform op = (s.perform op).map id (unwatched inner) := by
  cases op with
  | create name entry userland =>
    dsimp only [perform, unwatched]
    rw [w.inner_create]
    rfl
  | prepare h => rfl
  | load h image =>
    dsimp only [perform, unwatched]
    rw [w.inner_loadAndRun]
    rfl
  | exit h => rfl
  | reap =>
    dsimp only [perform, unwatched]
    rw [w.inner_reap]
    rfl
  | schedule place registers =>
    dsimp only [perform, unwatched]
    rw [w.inner_schedule]
    rfl

end TableState
end KernelCore
