import KernelCore.Proofs.SeparateSpaces

/-!
# New spaces look like the active one

What a page is mapped to and who may use it is a matter of the entries that the walk to the page
meets. The walk enters the tables through the root table alone, so two root tables with the same
entries name the same space. The root table of a new space is cleared, whatever its frame held, and
then gets the entries of the active one that are in use. So both have the same entries, and the
walks to every page meet the same ones.
-/
namespace KernelCore
namespace PageTable

variable {m m' : PhysicalMemory} {page : Page} {below a : Nat} {root table t : Frame}

/-- The physical address that the entries on the walk to an address give it. -/
def addressOn (a : Nat) : (below : Nat) → List UInt64 → Option Nat
  | 0, [e] => if isPresent e then some (physical e 0 a) else none
  | below + 1, e :: rest =>
    if isPresent e then
      if isHuge e then if below + 1 < depth then some (physical e (below + 1) a) else none
      else addressOn a below rest
    else none
  | _, _ => none

theorem translateBelow_eq_addressOn (m : PhysicalMemory) (a below : Nat) (table : Frame) :
    translateBelow m a below table = addressOn a below (walk m (.containing a) below table) := by
  induction below generalizing table with
  | zero => rfl
  | succ below ih =>
    simp only [translateBelow, walk, addressOn]
    by_cases present : isPresent (m.entry table (index (.containing a) (below + 1)))
    · cases huge : isHuge (m.entry table (index (.containing a) (below + 1))) with
      | true => simp [present]
      | false => simp [present, huge, next?, ih]
    · simp [present]

/-- The entry of the last level, if a walk gets to it. -/
theorem getElem?_walk (m : PhysicalMemory) (page : Page) (below : Nat) (table : Frame) :
    (walk m page below table)[below]? =
      (lastTable? m page below table).map fun f => m.entry f (index page 0) := by
  induction below generalizing table with
  | zero => rfl
  | succ below ih =>
    simp only [walk, lastTable?, List.getElem?_cons_succ]
    cases next? (m.entry table (index page (below + 1))) with
    | none => rfl
    | some f => exact ih f

theorem isMapped_eq_walk (m : PhysicalMemory) (root : Frame) (page : Page) :
    isMapped m root page = ((walk m page depth root)[depth]?).any (· != 0) := by
  rw [getElem?_walk, isMapped]
  cases lastTable? m page depth root <;> rfl

/-- A walk that starts from another table with the same entries meets the same entries. -/
theorem walk_of_same_entries (same : m.entry t = m.entry table) (page : Page) (below : Nat) :
    walk m page below t = walk m page below table := by
  cases below <;> simp only [walk, same]

/-- A walk meets the same entries if all tables of the space keep theirs. -/
theorem walk_congr (h : Table m root below table)
    (same : ∀ k t, Table m root k t → m'.entry t = m.entry t) :
    walk m' page below table = walk m page below table := by
  induction below generalizing table with
  | zero => simp only [walk, same _ _ h]
  | succ below ih =>
    simp only [walk, same _ _ h]
    congr 1
    split
    · rename_i f leads
      exact ih (h.next (link?_of_next? leads))
    · rfl

end PageTable

namespace PagingMachine

open PageTable

variable {u v : PagingMachine} {space S T : AddressSpace}

/-- Every page is found alike in the two spaces: the walks to it meet the same entries with the same
flags, so its addresses are in the same places, and it is mapped in both or in neither. -/
structure Alike (u : PagingMachine) (S : AddressSpace) (v : PagingMachine) (T : AddressSpace) :
    Prop where
  walk : ∀ page, u.walk S page = v.walk T page
  translate : ∀ a, u.translate S a = v.translate T a
  isMapped : ∀ page, KernelCore.isMapped u S page = KernelCore.isMapped v T page

/-- The walks say all there is to know about the pages. -/
theorem Alike.of_walk (same : ∀ page, u.walk S page = v.walk T page) : Alike u S v T where
  walk := same
  translate a := by
    have here : PageTable.walk _ _ _ _ = PageTable.walk _ _ _ _ := same (.containing a)
    rw [PagingMachine.translate, PagingMachine.translate, translateBelow_eq_addressOn,
      translateBelow_eq_addressOn, here]
  isMapped page := by
    change PageTable.isMapped u.tables (rootOf S) page = PageTable.isMapped v.tables (rootOf T) page
    have here : PageTable.walk _ _ _ _ = PageTable.walk _ _ _ _ := same page
    rw [isMapped_eq_walk, isMapped_eq_walk, here]

/-- If the frame of a new space is no table of the active one, its entries become those of the
active root table, and no other entry changes. -/
theorem entry_createSpace (call : createSpace u = (.ok space, v)) (apart : rootOf space ≠ u.root)
    (t : Frame) (i : Fin tableLength) : v.tables.entry t i =
      if t = rootOf space then u.tables.entry u.root i else u.tables.entry t i := by
  obtain ⟨f, -, rfl, made⟩ := allocate_of_createSpace call
  rw [rootOf_spaceOf] at apart ⊢
  rw [made]
  exact u.tables.entry_copyUsed_clearTable apart.symm t i

/-- There is no new space if there is no frame for it. -/
theorem allocate_of_createSpace_error {e : MapError} (h : createSpace u = (.error e, v)) :
    e = .frameAllocationFailed ∧ (allocateFrame u).1 = none := by
  change u.newSpace = _ at h
  unfold newSpace takeFrame at h
  rcases allocated : u.reserve.allocate with ⟨_ | f, reserve⟩
  · rw [allocated] at h
    exact ⟨(Except.error.inj (Prod.mk.inj h).1).symm, congrArg Prod.fst allocated⟩
  · rw [allocated] at h
    exact absurd (congrArg Prod.fst h) nofun

/-- Whatever memory holds, the root table of a new space gets the entries of the active one, so that
every page is found alike in both, and nothing else of memory changes; if there is no new space,
nothing changes at all. A space that is released gives back its root table and nothing else, unless
it is active: then nothing happens. The frame of the new space must be none of the tables of the
active one. -/
theorem new_space_agrees (u : PagingMachine) :
    (∀ space v, createSpace u = (.ok space, v) →
      (∀ k, ¬ Table u.tables u.root k (rootOf space)) →
        (allocateFrame u).1 = some (rootOf space) ∧
        (∀ i, v.tables.entry (rootOf space) i = u.tables.entry u.root i) ∧
        Alike v space v (activeSpace v) ∧ Alike v (activeSpace v) u (activeSpace u) ∧
        rootOf space ≠ u.root ∧
        (∀ t, t ≠ rootOf space → v.tables.entry t = u.tables.entry t) ∧
        v = { u with tables := v.tables, reserve := v.reserve }) ∧
    (∀ e v, createSpace u = (.error e, v) →
      e = .frameAllocationFailed ∧ (allocateFrame u).1 = none ∧ v = u) ∧
    ∀ space, releaseSpace space u =
      if space = activeSpace u then (none, u) else releaseFrame (rootOf space) u := by
  refine ⟨fun space v call unused => ?_, fun e v call => ?_, fun space => rfl⟩
  · have apart : rootOf space ≠ u.root := fun same => unused depth (same ▸ .root)
    have entries := entry_createSpace call apart
    obtain ⟨f, allocated, rfl, made⟩ := allocate_of_createSpace call
    rw [rootOf_spaceOf] at unused apart entries ⊢
    have root : v.root = u.root := by rw [made]
    have copied (i : Fin tableLength) : v.tables.entry f i = u.tables.entry u.root i :=
      (entries f i).trans (if_pos rfl)
    have others (t : Frame) (ne : t ≠ f) : v.tables.entry t = u.tables.entry t :=
      funext fun i => (entries t i).trans (if_neg ne)
    -- The new table is none of the tables that the walks meet, so all of these stay as they are.
    have tables (k : Nat) (t : Frame) (h : Table u.tables u.root k t) :
        v.tables.entry t = u.tables.entry t :=
      others t fun same => unused k (same ▸ h)
    have active : rootOf (activeSpace v) = u.root := (rootOf_spaceOf v.root).trans root
    have before : rootOf (activeSpace u) = u.root := rootOf_spaceOf u.root
    refine ⟨congrArg Prod.fst allocated, copied, .of_walk fun page => ?_, .of_walk fun page => ?_,
      apart, others, ?_⟩
    · rw [walk, walk, rootOf_spaceOf, active]
      refine walk_of_same_entries (funext fun i => ?_) page depth
      rw [copied, others _ apart.symm]
    · rw [walk, walk, active, before]
      exact walk_congr .root tables
    · rw [made]
  · obtain ⟨rfl, refused⟩ := allocate_of_createSpace_error call
    exact ⟨rfl, refused, createSpace_error call⟩

/-- The machine with the large pages, and a frame that was given back full of old bytes. -/
def recycling : PagingMachine where
  tables := largePages.tables.setTable ⟨0x1000⟩ fun _ => 0xffffffffffffffff
  reserve := { next := 0x1001000, limit := 0x2000000, recycled := [⟨0x1000⟩] }

/-- The tables are the frames from 1 to 3. -/
theorem number_le_of_table_recycling {k : Nat} {f : Frame}
    (h : Table recycling.tables recycling.root k f) : f.number ≤ 3 := by
  induction h with
  | root => decide
  | @next _ table _ i _ link ih =>
    have other : table ≠ ⟨0x1000⟩ := by
      rintro rfl
      exact absurd ih (by decide)
    have same : recycling.tables.entry table i = largePages.tables.entry table i :=
      congrFun (largePages.tables.entry_setTable_other _ other) i
    rw [same] at link
    obtain ⟨-, rfl⟩ | ⟨-, rfl⟩ := link?_largePages link <;> decide

/-- Through the recycled frame the large pages are found, and none of the old bytes. -/
theorem new_space_agrees_recycling :
    (createSpace recycling).1 = .ok ⟨0x1000000⟩ ∧
      (∀ k, ¬ Table recycling.tables recycling.root k (rootOf ⟨0x1000000⟩)) ∧
      (createSpace recycling).2.translate ⟨0x1000000⟩ 0x600abc = some 0x600abc ∧
      (createSpace recycling).2.walk ⟨0x1000000⟩ ⟨0x8000000⟩ = [0] := by
  have created : (createSpace recycling).1 = .ok ⟨0x1000000⟩ := by decide +kernel
  have unused (k : Nat) : ¬ Table recycling.tables recycling.root k (rootOf ⟨0x1000000⟩) :=
    fun table => absurd (number_le_of_table_recycling table) (by decide)
  obtain ⟨-, -, alike, kept, -⟩ :=
    (new_space_agrees recycling).1 ⟨0x1000000⟩ _ (Prod.ext created rfl) unused
  have found : recycling.translate (activeSpace recycling) 0x600abc = some 0x600abc := by
    decide +kernel
  have met : recycling.walk (activeSpace recycling) ⟨0x8000000⟩ = [0] := by decide +kernel
  exact ⟨created, unused, ((alike.translate _).trans (kept.translate _)).trans found,
    ((alike.walk _).trans (kept.walk _)).trans met⟩

end PagingMachine
end KernelCore
