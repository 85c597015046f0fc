import KernelCore.Proofs.FrameTally
import KernelCore.Proofs.SeparateSpaces

/-!
# Pages that are found again

As long as no frame serves as a table of two levels, a page that is mapped gets an entry of its own,
and what is mapped after it changes neither this entry nor the way there. Taking a page out clears
one entry of the last level, which is on the way to no other page. So when pages that were mapped one
after the other are taken out again, all of them are found, also in tables that several spaces share.
-/
namespace KernelCore
namespace PageTable

/-- Where the page has its entry of the last level. -/
def leaf (m : PhysicalMemory) (root : Frame) (page : Page) : Option Frame × Fin tableLength :=
  (lastTable? m page depth root, index page 0)

/-- These pages are mapped, each at an entry of its own. -/
structure Planted (m : PhysicalMemory) (root : Frame) (pages : List Page) : Prop where
  found : ∀ page ∈ pages, ∃ last, lastTable? m page depth root = some last ∧
    (next? (m.entry last (index page 0))).isSome
  apart : (pages.map (leaf m root)).Nodup

variable {roots : List Frame} {r r' : FrameReserve} {m m' : PhysicalMemory} {page : Page}
  {pages : List Page} {below : Nat} {R table last f frame : Frame} {user : Bool}

/-- The walk to a page takes no other course if the entries on the way stay the same. -/
theorem lastTable?_congr (way : Leads m R below (wayTo page below) table)
    (same : ∀ k t, Leads m R (k + 1) (wayTo page (k + 1)) t →
      m'.entry t (index page (k + 1)) = m.entry t (index page (k + 1))) :
    lastTable? m' page below table = lastTable? m page below table := by
  induction below generalizing table with
  | zero => rfl
  | succ below ih =>
    rw [lastTable?, lastTable?, same below table way]
    split
    · rename_i f next
      exact ih (way.next_way (link?_of_next? next))
    · rfl

namespace Housed

theorem allocate (h : Housed roots r m) (taken : r.allocate = (some f, r')) :
    Housed roots r' m := by
  obtain ⟨orderly, -, -, fewer⟩ := FrameReserve.allocate_some h.orderly taken
  exact ⟨orderly, fun hR way held => h.outside hR way (fewer _ held), h.level, h.branch⟩

/-- While pages are mapped, a walk that got to a table of the last level still gets there. -/
theorem lastTable?_grown (h : Housed roots r m) (hR : R ∈ roots) (g : Growth r.Holds m r' m')
    (way : Leads m R below (wayTo page below) table)
    (found : lastTable? m page below table = some last) :
    lastTable? m' page below table = some last := by
  induction below generalizing table with
  | zero => exact found
  | succ below ih =>
    rw [lastTable?] at found ⊢
    split at found
    · rename_i f next
      have link := link?_of_next? next
      have used : InUse r.Holds m table (index page (below + 1)) :=
        ⟨h.outside hR way, (link?_eq_some link).1⟩
      rw [(g.kept _ _ used).next?_eq next]
      exact ih (way.next_way link) found
    · cases found

end Housed

namespace Planted

theorem nil : Planted m R [] := ⟨nofun, .nil⟩

theorem reverse (p : Planted m R pages) : Planted m R pages.reverse where
  found page hp := p.found page (List.mem_reverse.mp hp)
  apart := by
    rw [List.map_reverse]
    exact List.nodup_reverse.mpr p.apart

theorem leaf_grown (p : Planted m R pages) (h : Housed roots r m) (hR : R ∈ roots)
    (g : Growth r.Holds m r' m') : pages.map (leaf m' R) = pages.map (leaf m R) := by
  refine List.map_congr_left fun page hp => ?_
  obtain ⟨last, found, -⟩ := p.found page hp
  rw [leaf, leaf, found, h.lastTable?_grown hR g .root found]

/-- Pages stay where they are mapped while more are mapped. -/
theorem grown (p : Planted m R pages) (h : Housed roots r m) (hR : R ∈ roots)
    (g : Growth r.Holds m r' m') : Planted m' R pages where
  found page hp := by
    obtain ⟨last, found, leads⟩ := p.found page hp
    obtain ⟨f, next⟩ := Option.isSome_iff_exists.mp leads
    have outside := h.outside hR (leads_of_lastTable? .root found)
    have gains := g.kept _ _ ⟨outside, (link?_eq_some (link?_of_next? next)).1⟩
    exact ⟨last, h.lastTable?_grown hR g .root found, Option.isSome_iff_exists.mpr
      ⟨f, gains.next?_eq next⟩⟩
  apart := p.leaf_grown h hR g ▸ p.apart

/-- A page that is mapped gets an entry that was not in use, so none of the others has it. -/
theorem map (p : Planted m R pages) (h : Housed roots r m) (hR : R ∈ roots) {r₁ : FrameReserve}
    (allocated : r.allocate = (some frame, r₁))
    (run : PageTable.map R page frame (mappingFlags user) m r₁ = (.ok (), m', r')) :
    Planted m' R (page :: pages) := by
  obtain ⟨-, held, -⟩ := FrameReserve.allocate_some h.orderly allocated
  have g := (Growth.refl m h.orderly fun _ => id).map allocated run
  obtain ⟨last, found, leads⟩ := (h.allocate allocated).lastTable?_mapBelow hR .root run
  have later := p.grown h hR g
  refine ⟨List.forall_mem_cons.mpr ⟨⟨last, found, ?_⟩, later.found⟩, ?_⟩
  · have present : isPresent (entryFor frame (mappingFlags user)) := isPresent_or_mappingFlags _ user
    rw [leads, next?_eq_link? present, link?_entryFor (h.orderly.small frame held)]
    rfl
  · refine List.nodup_cons.mpr ⟨fun old => ?_, later.apart⟩
    rw [p.leaf_grown h hR g] at old
    obtain ⟨q, hq, same⟩ := List.mem_map.mp old
    obtain ⟨last', found', leads'⟩ := p.found q hq
    rw [leaf, leaf, found, found'] at same
    obtain ⟨here, place⟩ := Prod.mk.inj same
    obtain rfl := Option.some.inj here
    obtain ⟨f, next⟩ := Option.isSome_iff_exists.mp leads'
    obtain ⟨upper, lower, anchored⟩ := anchored_map (Growth.refl m h.orderly fun _ => id)
      (h.outside hR .root) (fun i f link => h.outside hR (Leads.root.next link)) allocated run
    refine anchored.not_inUse found ⟨h.outside hR (leads_of_lastTable? .root found'), ?_⟩
    rw [← place]
    exact (link?_eq_some (link?_of_next? next)).1

/-- A page that is mapped can be taken out, and the others stay where they are. -/
theorem unmap (p : Planted m R (page :: pages)) (h : Housed roots r m) (hR : R ∈ roots) :
    (PageTable.unmap R page m).1.isSome ∧ Planted (PageTable.unmap R page m).2 R pages := by
  obtain ⟨⟨last, found, leads⟩, others⟩ := List.forall_mem_cons.mp p.found
  obtain ⟨f, next⟩ := Option.isSome_iff_exists.mp leads
  have out : PageTable.unmap R page m = (some f, m.set last (index page 0) 0) := by
    simp only [PageTable.unmap, found, next]
  have way := leads_of_lastTable? .root found
  have tables (q : Page) : lastTable? (m.set last (index page 0) 0) q depth R =
      lastTable? m q depth R := by
    refine lastTable?_congr .root fun k t upper => ?_
    rw [entry_set, if_neg]
    rintro ⟨rfl, -⟩
    exact absurd (h.level hR hR upper way) (Nat.succ_ne_zero k)
  obtain ⟨alone, apart⟩ := List.nodup_cons.mp p.apart
  rw [out]
  refine ⟨rfl, fun q hq => ?_, ?_⟩
  · obtain ⟨last', found', leads'⟩ := others q hq
    refine ⟨last', (tables q).trans found', ?_⟩
    rw [entry_set, if_neg]
    · exact leads'
    · rintro ⟨rfl, place⟩
      refine alone (List.mem_map.mpr ⟨q, hq, ?_⟩)
      rw [leaf, leaf, found, found', place]
  · have same : pages.map (leaf (m.set last (index page 0) 0) R) = pages.map (leaf m R) :=
      List.map_congr_left fun q _ => by rw [leaf, leaf, tables]
    exact same ▸ apart

end Planted
end PageTable

namespace Tallied

open PageTable PagingMachine

variable {roots : List Frame} {r : FrameReserve} {a a' b : Tallied} {space : AddressSpace}
  {page : Page} {pages : List Page} {f : Frame} {user : Bool} {e : Option MapError}

/-- These pages of the space are mapped, in tables that lie on one level each. The reserve need not
be the machine's, but none of its frames is a table. -/
structure Mapped (roots : List Frame) (space : AddressSpace) (r : FrameReserve) (pages : List Page)
    (a : Tallied) : Prop where
  housed : Housed roots r a.machine.tables
  known : rootOf space ∈ roots
  planted : Planted a.machine.tables (rootOf space) pages

/-- The tables stay as they are, and nothing was missed. -/
structure Settled (a b : Tallied) : Prop where
  tables : b.machine.tables = a.machine.tables
  missed : b.missed = a.missed

theorem settled_giveBack (f : Frame) (a : Tallied) : Settled a (giveBack f a) := by
  have released : Settled a (releaseFrame f a).2 := ⟨rfl, rfl⟩
  rw [giveBack]
  rcases h : releaseFrame f a with ⟨_ | dropped, b⟩ <;> rw [h] at released
  · exact released
  · exact ⟨released.tables, released.missed⟩

theorem settled_allocateFrame {answer : Option Frame} (h : allocateFrame a = (answer, b)) :
    a.machine.reserve.allocate = (answer, b.machine.reserve) ∧ Settled a b := by
  obtain ⟨call, uncounted⟩ := delegate_eq (h : a.delegate allocateFrame = _)
  exact ⟨allocate_of_allocateFrame call, congrArg (fun c => c.2.tables) call.symm, uncounted.missed⟩

namespace Mapped

theorem settled (m : Mapped roots space r pages a) (s : Settled a b) :
    Mapped roots space r pages b where
  housed := s.tables ▸ m.housed
  known := m.known
  planted := s.tables ▸ m.planted

/-- A page is mapped to a frame that was taken for it, or cannot be. -/
theorem mapPage (m : Mapped roots space a.machine.reserve pages a)
    (taken : allocateFrame a = (some f, a')) {answer : Except MapError Unit}
    (h : mapPage space page f user a' = (answer, b)) :
    Mapped roots space b.machine.reserve pages b ∧ b.missed = a.missed ∧
      (answer = .ok () → Mapped roots space b.machine.reserve (page :: pages) b) := by
  obtain ⟨allocated, tables, missed⟩ := settled_allocateFrame taken
  obtain ⟨call, counted⟩ := mapPage_eq h
  obtain ⟨run, -⟩ := map_of_mapPage call
  rw [tables] at run
  obtain ⟨housed, -⟩ := (m.housed.allocate allocated).mapBelow m.known .root run
  have g := (Growth.refl a.machine.tables m.housed.orderly fun _ => id).map allocated run
  refine ⟨⟨housed, m.known, m.planted.grown m.housed m.known g⟩, ?_, ?_⟩
  · rw [counted]
    exact missed
  · rintro rfl
    exact ⟨housed, m.known, m.planted.map m.housed m.known allocated run⟩

theorem mapFresh (m : Mapped roots space a.machine.reserve pages a)
    (h : mapFresh space page user a = (.ok (), b)) :
    Mapped roots space b.machine.reserve (page :: pages) b ∧ b.missed = a.missed := by
  rw [KernelCore.mapFresh] at h
  split at h
  · cases h
  · rename_i taken
    split at h
    · rename_i mapped
      obtain rfl := (Prod.mk.inj h).2
      obtain ⟨-, missed, ok⟩ := m.mapPage taken mapped
      exact ⟨ok rfl, missed⟩
    · cases h

/-- The frame of a page that cannot be mapped is not among the frames that were taken out. -/
theorem mapFresh_error (m : Mapped roots space a.machine.reserve pages a)
    (h : KernelCore.mapFresh space page user a = (.error e, b)) :
    ∃ r, Mapped roots space r pages b ∧ b.missed = a.missed := by
  rw [KernelCore.mapFresh] at h
  split at h
  · rename_i none
    obtain rfl := (Prod.mk.inj h).2
    obtain ⟨-, s⟩ := settled_allocateFrame none
    exact ⟨_, m.settled s, s.missed⟩
  · rename_i f a₁ taken
    split at h
    · cases h
    · rename_i cause q failed
      obtain rfl := (Prod.mk.inj h).2
      obtain ⟨stays, missed, -⟩ := m.mapPage taken failed
      exact ⟨_, stays.settled (settled_giveBack f q), (settled_giveBack f q).missed.trans missed⟩

theorem mapsFresh (m : Mapped roots space a.machine.reserve [] a)
    (h : MapsFresh space user a pages b) :
    Mapped roots space b.machine.reserve pages b ∧ b.missed = a.missed := by
  induction h with
  | start => exact ⟨m, rfl⟩
  | next before call ih =>
    obtain ⟨mapped, missed⟩ := ih
    obtain ⟨mapped', missed'⟩ := mapped.mapFresh call
    exact ⟨mapped', missed'.trans missed⟩

/-- Of the pages that are mapped none is missed when they are taken out. -/
theorem missed_unmapAndFree (m : Mapped roots space r pages a) :
    (unmapAndFree space pages a).missed = a.missed := by
  induction pages generalizing a with
  | nil => rfl
  | cons page pages ih =>
    let out := PageTable.unmap (rootOf space) page a.machine.tables
    obtain ⟨some, planted⟩ := m.planted.unmap m.housed m.known
    obtain ⟨f, found⟩ := Option.isSome_iff_exists.mp some
    obtain ⟨housed, -⟩ := m.housed.unmap m.known page
    have call : unmapPage space page a =
        (out.1, { a with machine := { a.machine with tables := out.2 },
                         missed := a.missed + if out.1.isSome then 0 else 1 }) := rfl
    have mapped : Mapped roots space r pages
        { a with machine := { a.machine with tables := out.2 } } := ⟨housed, m.known, planted⟩
    rw [unmapAndFree, call, show out.1 = _ from found]
    have back := settled_giveBack f { a with machine := { a.machine with tables := out.2 } }
    exact (ih (mapped.settled back)).trans back.missed

end Mapped

/-- If mapping pages to fresh frames fails, the pages that were mapped are all found again. -/
theorem missed_mapAllFresh {keep : Tallied → Page → Bool}
    (housed : Housed roots a.machine.reserve a.machine.tables) (known : rootOf space ∈ roots)
    (h : mapAllFresh space user keep pages [] a = (.error e, b)) : b.missed = a.missed := by
  obtain ⟨all, s, page, t, before, call, rfl⟩ := mapAllFresh_error_stages .start h
  have first : Mapped roots space a.machine.reserve [] a := ⟨housed, known, .nil⟩
  obtain ⟨mapped, missed⟩ := first.mapsFresh before
  obtain ⟨r, stays, missed'⟩ := mapped.mapFresh_error call
  have last : Mapped roots space r all.reverse t :=
    ⟨stays.housed, stays.known, stays.planted.reverse⟩
  exact last.missed_unmapAndFree.trans (missed'.trans missed)

end Tallied
end KernelCore
