import KernelCore.Proofs.FlatMapping
import KernelCore.Proofs.FrameCustody
import KernelCore.Proofs.LoadAcceptance
import KernelCore.Proofs.LoadedMemory

/-!
# Loads into a tree of tables

What the loader does on a machine of `LawfulMemory` it does on the paging machine too, if the tables
of the space form a tree. Each page that a load maps or takes out is then one step of the partial
function that the space is, and neither the frames that it has taken nor those that it gives back are
tables. So a load that succeeds has mapped just the pages of the image, each to a frame of its own
from the reserve, and stored the segments one after the other. Any other load leaves the space and
the memory as they were. Other spaces may share tables with this one; of them nothing is said.
-/
namespace KernelCore

namespace FrameReserve

variable {r r' : FrameReserve} {f : Frame} {dropped : Option Frame}

/-- A frame that is given back was not held twice. -/
theorem Orderly.release (orderly : r.Orderly) (small : f.start < physicalLimit)
    (gone : ¬ r.Holds f) (h : r.release f = (dropped, r')) :
    r'.Orderly ∧ ∀ g, r'.Holds g → g = f ∨ r.Holds g := by
  obtain ⟨-, -, rfl⟩ | ⟨-, -, rfl⟩ := release_cases h
  · have more (g : Frame) (holds : Holds { r with recycled := f :: r.recycled } g) :
        g = f ∨ r.Holds g := by
      obtain listed | pool := holds
      · exact (List.mem_cons.mp listed).imp id .inl
      · exact .inr (.inr pool)
    refine ⟨⟨?_, fun g listed low => ?_, fun g holds => ?_⟩, more⟩
    · exact List.nodup_cons.mpr ⟨fun listed => gone (.inl listed), orderly.once⟩
    · obtain rfl | listed := List.mem_cons.mp listed
      · exact Nat.not_lt.mp fun high => gone (.inr ⟨low, high⟩)
      · exact orderly.apart g listed low
    · obtain rfl | holds := more g holds
      · exact small
      · exact orderly.small g holds
  · exact ⟨orderly, fun g => .inr⟩

end FrameReserve

namespace PageTable

variable {r r' : FrameReserve} {m m' : PhysicalMemory} {page : Page} {below k : Nat}
  {root table f g frame : Frame} {i : Fin tableLength} {π ρ : List (Fin tableLength)} {user : Bool}

namespace Tree

theorem allocate (t : Tree r m root) (h : r.allocate = (some f, r')) : Tree r' m root := by
  obtain ⟨orderly, -, -, fewer⟩ := FrameReserve.allocate_some t.orderly h
  exact ⟨orderly, fun way held => t.outside way (fewer _ held), t.once, t.plain⟩

theorem release {dropped : Option Frame} (t : Tree r m root) (small : f.start < physicalLimit)
    (gone : ¬ r.Holds f) (away : ∀ k π, ¬ Leads m root k π f) (h : r.release f = (dropped, r')) :
    Tree r' m root := by
  obtain ⟨orderly, more⟩ := t.orderly.release small gone h
  refine ⟨orderly, fun way held => ?_, t.once, t.plain⟩
  obtain rfl | held := more _ held
  · exact away _ _ way
  · exact t.outside way held

/-- A table on the way was one before, or its frame comes from the reserve. -/
theorem leads_enter (t : Tree r m root) (upper : Leads m root (below + 1) π table)
    {answer : Except MapError Frame}
    (h : PageTable.enter (mappingFlags user) table i m r = (answer, m', r'))
    (way : Leads m' root k ρ g) : Leads m root k ρ g ∨ r.Holds g := by
  obtain ⟨-, same⟩ | ⟨f, unused, taken, -, links, empty⟩ :=
    enter_links t.orderly (t.outside upper) h
  · exact .inl ((leads_congr fun _ _ _ _ _ => same ..).mp way)
  · obtain ⟨-, held, -⟩ := FrameReserve.allocate_some t.orderly taken
    have apart {t' : Frame} {j : Nat} {σ : List (Fin tableLength)} (h : Leads m root j σ t') :
        t' ≠ f := fun same => t.outside h (same ▸ held)
    obtain old | ⟨rfl, -⟩ := (leads_linked (fun _ _ h => t.level h upper) (by rw [unused]; rfl)
      (fun _ _ _ h j => links _ j (apart h)) (fun j => by rw [empty]; rfl)).mp way
    · exact .inl old
    · exact .inr held

/-- A table after a page was to be mapped was one before, or its frame comes from the reserve. -/
theorem leads_mapBelow (t : Tree r m root) (upper : Leads m root below (wayTo page below) table)
    {answer : Except MapError Unit}
    (h : PageTable.mapBelow page frame (mappingFlags user) below table m r = (answer, m', r')) :
    (∀ g, r'.Holds g → r.Holds g) ∧
      ∀ k ρ g, Leads m' root k ρ g → Leads m root k ρ g ∨ r.Holds g := by
  induction below generalizing table m r with
  | zero =>
    unfold PageTable.mapBelow at h
    split at h
    · obtain ⟨-, rfl, rfl⟩ : _ ∧ _ ∧ _ := by simpa using h
      exact ⟨fun _ => id, fun _ _ _ => .inl⟩
    · obtain ⟨-, rfl, rfl⟩ : _ ∧ _ ∧ _ := by simpa using h
      exact ⟨fun _ => id, fun _ _ _ way => .inl ((t.leads_set_last upper).mp way)⟩
  | succ below ih =>
    obtain ⟨f, m₁, r₁, entered, rest⟩ | ⟨e, entered, rfl⟩ := mapBelow_succ_cases h
    · have fewer := Growth.fewer_enter t.orderly entered
      obtain ⟨t₁, -, ⟨g, here, next⟩ | ⟨no, -⟩⟩ := t.enter upper entered
      · obtain rfl := Except.ok.inj here
        obtain ⟨fewer', later⟩ := ih t₁ next rest
        refine ⟨fun g held => fewer g (fewer' g held), fun k ρ g way => ?_⟩
        obtain old | new := later k ρ g way
        · exact t.leads_enter upper entered old
        · exact .inr (fewer g new)
      · cases no
    · exact ⟨Growth.fewer_enter t.orderly entered, fun _ _ _ => t.leads_enter upper entered⟩

/-- Taking a page out makes no tables. -/
theorem leads_of_unmap (t : Tree r m root) (way : Leads (PageTable.unmap root page m).2 root k ρ g) :
    Leads m root k ρ g := by
  unfold PageTable.unmap at way
  split at way
  · exact way
  · rename_i last found
    split at way
    · exact way
    · exact (t.leads_set_last ((t.lastTable?_iff page .root).mp found)).mp way

end Tree
end PageTable

namespace FlatStep

variable {φ ψ : VirtualPage → Option Frame} {p : VirtualPage} {f : PhysicalFrame} {user spare : Bool}

theorem map_ok (h : FlatStep φ ⟨.map p f user, .map (.ok ()), spare⟩ ψ) :
    φ p = none ∧ ψ = Function.update φ p (some f.frame) := by
  cases h with
  | mapped absent => exact ⟨absent, rfl⟩

theorem map_error {e : MapError} (h : FlatStep φ ⟨.map p f user, .map (.error e), spare⟩ ψ) :
    ψ = φ := by
  cases h <;> rfl

theorem unmap {answer : Option Frame} (h : FlatStep φ ⟨.unmap p, .unmap answer, spare⟩ ψ) :
    answer = φ p ∧ ψ = Function.update φ p none := by
  cases h
  exact ⟨rfl, rfl⟩

end FlatStep

namespace PagingMachine

open PageTable

/-- These pages of the space have been mapped to these frames, and these frames are in hand. All of
the frames were taken from the reserve, and none of them is a table. -/
structure Lodged (space : AddressSpace) (m u : PagingMachine)
    (entries : List (VirtualPage × Frame)) (hand : List Frame) : Prop where
  tree : u.Treelike space
  pages : (entries.map Prod.fst).Nodup
  absent : ∀ e ∈ entries, m.frames space e.1 = none
  backed : ∀ e ∈ entries, u.frames space e.1 = some e.2
  others : ∀ p, p ∉ entries.map Prod.fst → u.frames space p = m.frames space p
  once : (hand ++ entries.map Prod.snd).Nodup
  held : ∀ f ∈ hand ++ entries.map Prod.snd, m.reserve.Holds f ∧ f.start < physicalLimit
  apart : ∀ f ∈ hand ++ entries.map Prod.snd,
    ¬ u.reserve.Holds f ∧ ∀ k π, ¬ Leads u.tables (rootOf space) k π f
  fewer : ∀ f, u.reserve.Holds f → m.reserve.Holds f
  memory : u.memory = m.memory

variable {m u v : PagingMachine} {space : AddressSpace} {page : Page} {p : VirtualPage}
  {f : Frame} {user : Bool} {entries entries' : List (VirtualPage × Frame)} {hand : List Frame}

/-- Where the processor finds the pages of a space is a matter of the tables. -/
theorem frames_of_tables (h : u.tables = m.tables) : u.frames space = m.frames space := by
  funext p
  rw [frames, frames, translate, translate, h]

theorem giveBack_eq (f : Frame) (u : PagingMachine) : giveBack f u = (releaseFrame f u).2 := by
  rw [giveBack]
  rcases releaseFrame f u with ⟨_ | _, v⟩
  · rfl
  · rfl

theorem eq_of_allocateFrame_none (h : allocateFrame u = (none, v)) : v = u := by
  have refused := allocate_of_allocateFrame h
  have rest : v = { u with reserve := u.reserve.allocate.2 } := (congrArg Prod.snd h).symm
  rw [rest, refused, FrameReserve.allocate_none refused]

namespace Lodged

theorem start (t : m.Treelike space) : Lodged space m m [] [] where
  tree := t
  pages := .nil
  absent := nofun
  backed := nofun
  others _ _ := rfl
  once := .nil
  held := nofun
  apart := nofun
  fewer _ := id
  memory := rfl

/-- The order does not matter. -/
theorem perm (l : Lodged space m u entries hand) (perm : entries.Perm entries') :
    Lodged space m u entries' hand where
  tree := l.tree
  pages := (perm.map Prod.fst).nodup_iff.mp l.pages
  absent e mem := l.absent e (perm.mem_iff.mpr mem)
  backed e mem := l.backed e (perm.mem_iff.mpr mem)
  others p new := l.others p fun old => new ((perm.map Prod.fst).mem_iff.mp old)
  once := ((perm.map Prod.snd).append_left hand).nodup_iff.mp l.once
  held f mem := l.held f (((perm.map Prod.snd).append_left hand).mem_iff.mpr mem)
  apart f mem := l.apart f (((perm.map Prod.snd).append_left hand).mem_iff.mpr mem)
  fewer := l.fewer
  memory := l.memory

/-- A frame that is handed out was in no one's hands. -/
theorem take (l : Lodged space m u entries hand) (h : allocateFrame u = (some f, v)) :
    Lodged space m v entries (f :: hand) := by
  have taken := allocate_of_allocateFrame h
  obtain ⟨orderly, own, gone, fewer⟩ := FrameReserve.allocate_some l.tree.orderly taken
  have tables : v.tables = u.tables := congrArg (fun c => c.2.tables) h.symm
  have memory : v.memory = u.memory := congrArg (fun c => c.2.memory) h.symm
  have same : v.frames space = u.frames space := frames_of_tables tables
  refine ⟨?_, l.pages, l.absent, fun e mem => ?_, fun p new => ?_, ?_, ?_, ?_,
    fun g back => l.fewer g (fewer g back), memory.trans l.memory⟩
  · rw [Treelike, tables]
    exact Tree.allocate l.tree taken
  · rw [same, l.backed e mem]
  · rw [same, l.others p new]
  · exact List.nodup_cons.mpr ⟨fun old => (l.apart f old).1 own, l.once⟩
  · exact List.forall_mem_cons.mpr ⟨⟨l.fewer f own, l.tree.orderly.small f own⟩, l.held⟩
  · rw [tables]
    refine List.forall_mem_cons.mpr ⟨⟨gone, fun k π way => l.tree.outside way own⟩, fun g mem => ?_⟩
    obtain ⟨out, away⟩ := l.apart g mem
    exact ⟨fun back => out (fewer g back), away⟩

/-- What is lodged stays apart from the tables that are made for a page. -/
theorem apart_mapPage (l : Lodged space m u entries hand) {answer : Except MapError Unit}
    (h : mapPage space page f user u = (answer, v)) : (∀ g, v.reserve.Holds g → u.reserve.Holds g) ∧
      ∀ g ∈ hand ++ entries.map Prod.snd,
        ¬ v.reserve.Holds g ∧ ∀ k π, ¬ Leads v.tables (rootOf space) k π g := by
  obtain ⟨run, -⟩ := map_of_mapPage h
  obtain ⟨fewer, origin⟩ := Tree.leads_mapBelow l.tree .root run
  refine ⟨fewer, fun g mem => ?_⟩
  obtain ⟨out, away⟩ := l.apart g mem
  refine ⟨fun back => out (fewer g back), fun k π way => ?_⟩
  obtain old | own := origin k π g way
  · exact away k π old
  · exact out own

theorem flatStep (l : Lodged space m u entries (f :: hand)) {answer : Except MapError Unit}
    (h : mapPage space p.page f user u = (answer, v)) : v.Treelike space ∧
      ∃ small, FlatStep (u.frames space)
        ⟨.map p ⟨f, small⟩ user, .map answer, (allocateFrame v).1.isSome⟩ (v.frames space) := by
  have small := (l.held f (by simp)).2
  have call : (PageCall.map p ⟨f, small⟩ user).perform space u = (.map answer, v) := by
    simp only [PageCall.perform, h]
  obtain ⟨tree, step⟩ := flatStep_map l.tree p ⟨f, small⟩ user call
  exact ⟨tree, small, step⟩

/-- A page that can be mapped was not mapped before, and gets the frame in hand. -/
theorem map_ok (l : Lodged space m u entries (f :: hand))
    (h : mapPage space p.page f user u = (.ok (), v)) :
    Lodged space m v ((p, f) :: entries) hand := by
  obtain ⟨tree, _, step⟩ := l.flatStep h
  obtain ⟨absent, update⟩ := step.map_ok
  obtain ⟨fewer, apart⟩ := l.apart_mapPage h
  have new : p ∉ entries.map Prod.fst := by
    intro mem
    obtain ⟨e, he, rfl⟩ := List.mem_map.mp mem
    exact absurd ((l.backed e he).symm.trans absent) nofun
  have perm : (f :: hand ++ entries.map Prod.snd).Perm
      (hand ++ ((p, f) :: entries).map Prod.snd) := List.perm_middle.symm
  refine ⟨tree, List.nodup_cons.mpr ⟨new, l.pages⟩, ?_, ?_, fun q other => ?_,
    perm.nodup_iff.mp l.once, fun g mem => l.held g (perm.mem_iff.mpr mem),
    fun g mem => apart g (perm.mem_iff.mpr mem), fun g back => l.fewer g (fewer g back), ?_⟩
  · exact List.forall_mem_cons.mpr ⟨(l.others p new).symm.trans absent, l.absent⟩
  · rw [update]
    refine List.forall_mem_cons.mpr ⟨Function.update_self .., fun e mem => ?_⟩
    rw [Function.update_of_ne (ne_of_mem_of_not_mem (List.mem_map_of_mem mem) new), l.backed e mem]
  · rw [update, Function.update_of_ne (List.ne_of_not_mem_cons other),
      l.others q (List.not_mem_of_not_mem_cons other)]
  · exact (congrArg (fun c => c.2.memory) h.symm).trans l.memory

/-- A page that cannot be mapped leaves all pages as they are. -/
theorem map_error (l : Lodged space m u entries (f :: hand)) {e : MapError}
    (h : mapPage space p.page f user u = (.error e, v)) :
    Lodged space m v entries (f :: hand) := by
  obtain ⟨tree, _, step⟩ := l.flatStep h
  obtain ⟨fewer, apart⟩ := l.apart_mapPage h
  refine ⟨tree, l.pages, l.absent, ?_, ?_, l.once, l.held, apart,
    fun g back => l.fewer g (fewer g back), (congrArg (fun c => c.2.memory) h.symm).trans l.memory⟩
  · rw [step.map_error]
    exact l.backed
  · rw [step.map_error]
    exact l.others

/-- A page that is taken out is mapped as before, and its frame is in hand again. -/
theorem unmap (l : Lodged space m u ((p, f) :: entries) hand) {answer : Option Frame}
    (h : unmapPage space p.page u = (answer, v)) :
    answer = some f ∧ Lodged space m v entries (f :: hand) := by
  have call : (PageCall.unmap p).perform space u = (.unmap answer, v) := by
    simp only [PageCall.perform, h]
  obtain ⟨tree, step⟩ := flatStep_unmap l.tree p call
  obtain ⟨rfl, update⟩ := step.unmap
  obtain ⟨new, pages⟩ := List.nodup_cons.mp l.pages
  obtain ⟨absent, rest⟩ := List.forall_mem_cons.mp l.absent
  obtain ⟨backed, backed'⟩ := List.forall_mem_cons.mp l.backed
  obtain rfl : (unmapPage space p.page u).2 = v := congrArg Prod.snd h
  have perm : (f :: hand ++ entries.map Prod.snd).Perm
      (hand ++ ((p, f) :: entries).map Prod.snd) := List.perm_middle.symm
  refine ⟨backed, tree, pages, rest, fun e mem => ?_, fun q other => ?_, perm.nodup_iff.mpr l.once,
    fun g mem => l.held g (perm.mem_iff.mp mem), fun g mem => ?_, l.fewer, l.memory⟩
  · rw [update, Function.update_of_ne (ne_of_mem_of_not_mem (List.mem_map_of_mem mem) new),
      backed' e mem]
  · rw [update]
    by_cases here : q = p
    · rw [here, Function.update_self, absent]
    · rw [Function.update_of_ne here, 
        l.others q (List.not_mem_cons_of_ne_of_not_mem here other)]
  · obtain ⟨out, away⟩ := l.apart g (perm.mem_iff.mp mem)
    exact ⟨out, fun k π way => away k π (Tree.leads_of_unmap l.tree way)⟩

/-- A frame in hand can be given back. -/
theorem give (l : Lodged space m u entries (f :: hand)) :
    Lodged space m (giveBack f u) entries hand := by
  obtain ⟨⟨own, small⟩, held⟩ := List.forall_mem_cons.mp l.held
  obtain ⟨⟨out, away⟩, apart⟩ := List.forall_mem_cons.mp l.apart
  obtain ⟨new, once⟩ := List.nodup_cons.mp l.once
  rcases given : releaseFrame f u with ⟨dropped, v⟩
  have release := release_of_releaseFrame given
  have tables : v.tables = u.tables := congrArg (fun c => c.2.tables) given.symm
  have memory : v.memory = u.memory := congrArg (fun c => c.2.memory) given.symm
  have same : v.frames space = u.frames space := frames_of_tables tables
  obtain ⟨-, more⟩ := l.tree.orderly.release small out release
  rw [giveBack_eq, given]
  refine ⟨?_, l.pages, l.absent, same ▸ l.backed, same ▸ l.others, once, held, fun g mem => ?_,
    fun g back => ?_, memory.trans l.memory⟩
  · rw [Treelike, tables]
    exact Tree.release l.tree small out away release
  · obtain ⟨out', away'⟩ := apart g mem
    rw [tables]
    refine ⟨fun back => ?_, away'⟩
    obtain rfl | back := more g back
    · exact new mem
    · exact out' back
  · obtain rfl | back := more g back
    · exact own
    · exact l.fewer g back

/-- Mapping a page to a fresh frame. -/
theorem mapFresh (l : Lodged space m u entries []) {answer : Except (Option MapError) Unit}
    (h : mapFresh space p.page user u = (answer, v)) :
    (answer = .ok () ∧ ∃ f, Lodged space m v ((p, f) :: entries) []) ∨
      ((∃ e, answer = .error e) ∧ Lodged space m v entries []) := by
  rw [KernelCore.mapFresh] at h
  split at h
  · rename_i w none
    obtain ⟨rfl, rfl⟩ := Prod.mk.inj h
    exact .inr ⟨⟨_, rfl⟩, eq_of_allocateFrame_none none ▸ l⟩
  · rename_i f w taken
    have taken := l.take taken
    split at h
    · rename_i mapped
      obtain ⟨rfl, rfl⟩ := Prod.mk.inj h
      exact .inl ⟨rfl, f, taken.map_ok mapped⟩
    · rename_i e x failed
      obtain ⟨rfl, rfl⟩ := Prod.mk.inj h
      exact .inr ⟨⟨_, rfl⟩, (taken.map_error failed).give⟩

/-- All pages are taken out again. -/
theorem unmapAndFree (l : Lodged space m u entries []) :
    Lodged space m (unmapAndFree space (entries.map fun e => e.1.page) u) [] [] := by
  induction entries generalizing u with
  | nil => exact l
  | cons e entries ih =>
    rcases out : unmapPage space e.1.page u with ⟨answer, v⟩
    obtain ⟨rfl, l'⟩ := l.unmap out
    rw [List.map_cons, KernelCore.unmapAndFree, out]
    exact ih l'.give

/-- Pages are mapped one after the other, or the first one that is refused has all of them taken out
again. -/
theorem mapAllFresh {pages : List VirtualPage} (l : Lodged space m u entries [])
    {answer : Except (Option MapError) Unit}
    (h : mapAllFresh space user (fun _ _ => false) (pages.map VirtualPage.page)
      (entries.map fun e => e.1.page) u = (answer, v)) :
    (answer = .ok () ∧ ∃ all, Lodged space m v all [] ∧
      all.map Prod.fst = pages.reverse ++ entries.map Prod.fst) ∨
      ((∃ e, answer = .error e) ∧ Lodged space m v [] []) := by
  induction pages generalizing u entries with
  | nil =>
    obtain ⟨rfl, rfl⟩ := Prod.mk.inj h
    exact .inl ⟨rfl, entries, l, rfl⟩
  | cons p pages ih =>
    rw [List.map_cons, KernelCore.mapAllFresh, if_neg Bool.false_ne_true] at h
    rcases call : KernelCore.mapFresh space p.page user u with ⟨fresh, w⟩
    rw [call] at h
    obtain ⟨rfl, f, more⟩ | ⟨⟨e, rfl⟩, same⟩ := l.mapFresh call
    · have rest := ih more h
      rwa [List.map_cons, List.append_cons, ← List.reverse_cons] at rest
    · obtain ⟨rfl, rfl⟩ := Prod.mk.inj h
      refine .inr ⟨⟨e, rfl⟩, ?_⟩
      rw [← List.map_reverse]
      exact (same.perm (List.reverse_perm entries).symm).unmapAndFree

end Lodged
end PagingMachine

namespace ExecutableImage

open PagingMachine

variable {image : ExecutableImage} {space : AddressSpace} {user : Bool} {m u : PagingMachine}
  {segments : List Segment} {s : Segment} {a : Nat}

/-- Stores a segment at its addresses. -/
def storeSegment (image : ExecutableImage) (memory : ByteMemory) (s : Segment) : ByteMemory :=
  memory.store s.start s.size (image.initialByte s)

theorem byte_storeSegment (memory : ByteMemory) : (image.storeSegment memory s).byte a =
    if s.start ≤ a ∧ a < s.start + s.size then image.initialByte s (a - s.start)
    else memory.byte a := by
  rw [storeSegment, ByteMemory.byte_store]
  refine if_congr ?_ rfl rfl
  omega

/-- Filling a segment stores it, whatever the tables say. -/
theorem fillSegment_eq_store (fits : s.fileSize ≤ s.size)
    (whole : (image.contents s).size = s.fileSize) (m : PagingMachine) :
    image.fillSegment s m = { m with memory := image.storeSegment m.memory s } := by
  have stored : (m.memory.fill s.start s.size 0).write s.start (image.contents s) =
      image.storeSegment m.memory s := by
    refine congrArg ByteMemory.mk (funext fun b => ?_)
    simp only [ByteMemory.fill, ByteMemory.byte_store, whole, initialByte]
    by_cases first : b - s.start < s.fileSize
    · have inside : b - s.start < s.size := by omega
      simp only [first, inside, if_true]
      split <;> rfl
    · simp only [first, and_false, if_false]
  rw [← stored, fillSegment]
  split
  · rename_i none
    have empty : image.contents s = #[] := Array.eq_empty_of_size_eq_zero (whole.trans none)
    rw [empty, ByteMemory.write, Array.size_empty, ByteMemory.store_zero]
    rfl
  · rfl

theorem fillSegments_eq_store
    (whole : ∀ s ∈ segments, s.fileSize ≤ s.size ∧ (image.contents s).size = s.fileSize)
    (m : PagingMachine) : segments.foldl (fun p s => image.fillSegment s p) m =
      { m with memory := segments.foldl image.storeSegment m.memory } := by
  induction segments generalizing m with
  | nil => rfl
  | cons s segments ih =>
    obtain ⟨⟨fits, size⟩, rest⟩ := List.forall_mem_cons.mp whole
    rw [List.foldl_cons, fillSegment_eq_store fits size, ih rest, List.foldl_cons]

theorem byte_storeSegments_outside (out : ∀ s ∈ segments, ¬ s.Covers a) (memory : ByteMemory) :
    (segments.foldl image.storeSegment memory).byte a = memory.byte a := by
  induction segments generalizing memory with
  | nil => rfl
  | cons s segments ih =>
    obtain ⟨here, rest⟩ := List.forall_mem_cons.mp out
    rw [List.foldl_cons, ih rest, byte_storeSegment]
    exact if_neg here

/-- The last segment that takes an address decides. -/
theorem byte_storeSegments_last {before after : List Segment} (covers : s.Covers a)
    (later : ∀ t ∈ after, ¬ t.Covers a) (memory : ByteMemory) :
    ((before ++ s :: after).foldl image.storeSegment memory).byte a =
      image.initialByte s (a - s.start) := by
  rw [List.foldl_append, List.foldl_cons, byte_storeSegments_outside later, byte_storeSegment]
  exact if_pos covers

/-- What a segment takes that lies between two canonical addresses and off the edge of the lower half
is canonical. -/
theorem canonical_of_covers {h : ProgramHeader} (first : Canonical h.address)
    (last : Canonical h.last) (off : h.segment.spans ⟨lastLowerPage⟩ = false) (covers : h.Covers a) :
    Canonical (Page.containing a).start := by
  obtain ⟨low, high⟩ := covers
  have edge : h.segment.firstPage ≤ lastLowerPage → h.segment.lastPage < lastLowerPage := by
    simpa [Segment.spans] using off
  simp only [Segment.firstPage, Segment.lastPage, ProgramHeader.segment, ProgramHeader.last,
    Canonical, Page.containing, Page.start, userSpaceEnd, wordLimit, lastLowerPage,
    pageSize] at *
  omega

/-- A plan is only made for pages that the processor has addresses for. -/
theorem canonical_of_plan {mapped : Page → Bool} {entry : Nat} {page : Page}
    (made : image.plan user mapped = .ok (entry, segments)) (touched : image.Touches page) :
    Canonical page.start := by
  obtain ⟨h, hm, a, covers, rfl⟩ := touched
  have off (h : ProgramHeader) (hm : h ∈ image.memoryHeaders) :
      h.segment.spans ⟨lastLowerPage⟩ = false := by
    refine walkable_of_plan made _ ?_
    rw [(plan_ok made).segments_eq]
    exact List.mem_map_of_mem hm
  have all := (decides_plan fun h hm _ _ => off h hm).ok_iff.mp ⟨_, made⟩
  have loaded : h ∈ image.loadHeaders image.nominalHeader := by
    rw [memoryHeaders] at hm
    split at hm
    · rename_i header found
      exact eq_nominalHeader found ▸ List.mem_of_mem_filter hm
    · cases hm
  have fields : ∀ r ∈ image.fieldRequirements user h, r.holds := fun r hr =>
    all r (List.mem_append_right _ (List.mem_append_right _
      (List.mem_flatMap.mpr ⟨h, loaded, List.mem_append_left _ hr⟩)))
  obtain ⟨first, last⟩ := canonical_of_fields fields (memorySize_pos hm)
  exact canonical_of_covers first last (off h hm) covers

/-- What a load leaves in a space whose tables form a tree. -/
structure LoadedInTree (image : ExecutableImage) (space : AddressSpace) (m u : PagingMachine)
    (info : LoadedImage) : Prop where
  /-- At every address of a segment the last one that takes the address decides. -/
  bytes : ∀ before header after, image.memoryHeaders = before ++ header :: after →
    ∀ a, header.Covers a → (∀ later ∈ after, ¬ later.Covers a) →
    if a - header.address < header.fileSize
    then image.bytes[header.offset + (a - header.address)]? = some (u.memory.byte a)
    else u.memory.byte a = 0
  outside : ∀ a, (∀ h ∈ image.memoryHeaders, ¬ h.Covers a) → u.memory.byte a = m.memory.byte a
  /-- Every page that a segment touches was mapped once, to a frame of the reserve. -/
  pages : ∃ entries : List (VirtualPage × Frame), (entries.map Prod.fst).Nodup ∧
    (entries.map Prod.snd).Nodup ∧
    (∀ page, image.Touches page ↔ page ∈ entries.map fun e => e.1.page) ∧
    info.pagesMapped = entries.length ∧
    ∀ e ∈ entries, m.frames space e.1 = none ∧ u.frames space e.1 = some e.2 ∧
      m.reserve.Holds e.2
  segments : info.segments = image.memoryHeaders.length
  /-- All other pages are mapped as they were. -/
  kept : ∀ p : VirtualPage, ¬ image.Touches p.page → u.frames space p = m.frames space p

/-- The pages of a plan, with the proof that the processor has addresses for them. -/
theorem exists_virtualPages {pages : List Page} (canonical : ∀ page ∈ pages, Canonical page.start) :
    ∃ all : List VirtualPage, all.map VirtualPage.page = pages := by
  refine ⟨pages.pmap VirtualPage.mk canonical, ?_⟩
  rw [List.map_pmap]
  exact List.pmap_eq_self.mpr fun _ _ => rfl

theorem Planned.whole {mapped : Page → Bool} (planned : image.Planned mapped segments) :
    ∀ s ∈ segments, s.fileSize ≤ s.size ∧ (image.contents s).size = s.fileSize := by
  rw [planned.segments_eq]
  exact whole_of_fits planned.fits

/-- Once its pages have been mapped, an image is stored. -/
theorem loadedInTree_of_lodged {entries : List (VirtualPage × Frame)} {mapped : Page → Bool}
    {v : PagingMachine} (planned : image.Planned mapped segments) (l : Lodged space m v entries [])
    (touched : entries.map (fun e => e.1.page) = (freshPages [] segments).reverse) (entry : Nat) :
    image.LoadedInTree space m (segments.foldl (fun p s => image.fillSegment s p) v)
      ⟨entry, segments.length, (freshPages [] segments).length⟩ := by
  have hu := fillSegments_eq_store planned.whole v
  have pages (page : Page) : image.Touches page ↔ page ∈ entries.map fun e => e.1.page := by
    rw [touched, List.mem_reverse, planned.mem_freshPages]
  have same : (segments.foldl (fun p s => image.fillSegment s p) v).frames space =
      v.frames space := frames_of_tables (by rw [hu])
  have memory : (segments.foldl (fun p s => image.fillSegment s p) v).memory =
      segments.foldl image.storeSegment m.memory := by rw [hu, ← l.memory]
  refine ⟨fun before header after split a covers later => ?_, fun a out => ?_,
    ⟨entries, l.pages, l.once, pages, ?_, fun e mem => ?_⟩, ?_, fun p away => ?_⟩
  · have fits := planned.fits header (split ▸ by simp)
    have byte := initialByte_segment fits (a - header.address)
    have decided : (segments.foldl image.storeSegment m.memory).byte a =
        image.initialByte header.segment (a - header.address) := by
      rw [planned.segments_eq, split, List.map_append, List.map_cons]
      have here : header.segment.Covers a := covers
      refine byte_storeSegments_last here (fun s hs => ?_) m.memory
      obtain ⟨h, hm, rfl⟩ := List.mem_map.mp hs
      exact later h hm
    rwa [memory, decided]
  · rw [memory]
    refine byte_storeSegments_outside (fun s hs => ?_) m.memory
    rw [planned.segments_eq] at hs
    obtain ⟨h, hm, rfl⟩ := List.mem_map.mp hs
    exact out h hm
  · simpa using (congrArg List.length touched).symm
  · rw [same]
    exact ⟨l.absent e mem, l.backed e mem, (l.held e.2 (List.mem_map_of_mem mem)).1⟩
  · rw [planned.segments_eq, List.length_map]
  · rw [same]
    refine l.others p fun mem => away ((pages p.page).mpr ?_)
    obtain ⟨e, he, rfl⟩ := List.mem_map.mp mem
    exact List.mem_map_of_mem he

/-- On a space whose tables form a tree, a load that succeeds maps the pages of the image and fills
them, and any other load leaves the space and the memory as they were. -/
theorem load_in_tree (tree : m.Treelike space) {answer : Outcome ImageError LoadedImage}
    (h : image.load space user m = (answer, u)) : u.Treelike space ∧
      ((∃ info, answer = .ok info ∧ image.LoadedInTree space m u info) ∨
        ((∀ info, answer ≠ .ok info) ∧ u.frames space = m.frames space ∧ u.memory = m.memory)) := by
  rcases made : image.plan user (isMapped m space) with ⟨entry, segments⟩ | e | _
  · have planned := plan_ok made
    obtain ⟨all, pages⟩ := exists_virtualPages fun page hp =>
      canonical_of_plan made (planned.mem_freshPages.mp hp)
    rcases call : mapAllFresh space user (fun _ _ => false) (freshPages [] segments) [] m with
      ⟨mapped, v⟩
    rw [load, made] at h
    dsimp only at h
    rw [call] at h
    rw [← pages] at call
    obtain ⟨rfl, entries, l, order⟩ | ⟨⟨cause, rfl⟩, l⟩ := (Lodged.start tree).mapAllFresh call
    · obtain ⟨rfl, rfl⟩ := Prod.mk.inj h
      have touched : entries.map (fun e => e.1.page) = (freshPages [] segments).reverse := by
        rw [← pages, ← List.map_reverse, ← List.append_nil all.reverse, ← List.map_nil, ← order,
          List.map_map]
        rfl
      refine ⟨?_, .inl ⟨_, rfl, loadedInTree_of_lodged planned l touched entry⟩⟩
      rw [fillSegments_eq_store planned.whole]
      exact l.tree
    · obtain ⟨rfl, rfl⟩ := Prod.mk.inj h
      exact ⟨l.tree, .inr ⟨fun _ => by simp, funext fun p => l.others p List.not_mem_nil, l.memory⟩⟩
  · rw [load, made] at h
    obtain ⟨rfl, rfl⟩ := Prod.mk.inj h
    exact ⟨tree, .inr ⟨fun _ => by simp, rfl, rfl⟩⟩
  · rw [load, made] at h
    obtain ⟨rfl, rfl⟩ := Prod.mk.inj h
    exact ⟨tree, .inr ⟨fun _ => by simp, rfl, rfl⟩⟩

end ExecutableImage
end KernelCore
