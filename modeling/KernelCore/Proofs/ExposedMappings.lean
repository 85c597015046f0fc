import KernelCore.ImageLoader
import KernelCore.Proofs.LoadAtomicity
import KernelCore.Proofs.PreparedEntries
import KernelCore.Proofs.SteadyViews
import KernelCore.Proofs.TableRollback

/-!
# Mappings that a load exposes

Loading an image for ring 3 keeps every translation that there was, however the load ends. But it
opens the entries on the way to each page that it tries to map, and nothing closes them again. So a
mapping that ring 3 could not reach comes into its reach if every entry that kept ring 3 out lies on
the way to one of these pages, as the entry of a large page does that the image overlaps: the pages
inside it do not count as mapped, so the load is not refused before it has tried.
-/
namespace KernelCore

open PageTable

namespace PagingMachine

/-- The reserve holds every frame once, and none of the tables of the space. -/
structure Sound (m : PagingMachine) (space : AddressSpace) : Prop where
  orderly : m.reserve.Orderly
  outside : ∀ {below f}, Table m.tables (rootOf space) below f → ¬ m.reserve.Holds f

/-- No frame is a table of the space on two levels. -/
def Levelled (m : PagingMachine) (space : AddressSpace) : Prop :=
  ∀ {j k f}, Table m.tables (rootOf space) j f → Table m.tables (rootOf space) k f → j = k

/-- The way to the page meets the entry above the last level. -/
def Passes (m : PagingMachine) (space : AddressSpace) (page : Page) (table : Frame)
    (i : Fin tableLength) : Prop :=
  (table, i) ∈ (m.places space page).take depth

/-- The entry is in use, in a table that is not up for reuse. -/
def Uses (m : PagingMachine) (table : Frame) (i : Fin tableLength) : Prop :=
  InUse m.reserve.Holds m.tables table i

/-- What becomes of the entries in use once these pages were to be mapped for ring 3. -/
structure Spread (m : PagingMachine) (space : AddressSpace) (tried : List Page)
    (tables : PhysicalMemory) : Prop where
  kept : ∀ table i, m.Uses table i → Gains (m.tables.entry table i) (tables.entry table i)
  opened : ∀ page ∈ tried, ∀ table i, m.Passes space page table i → m.Uses table i →
    isUser (tables.entry table i)
  only : m.Levelled space → ∀ table i, m.Uses table i → isUser (tables.entry table i) →
    isUser (m.tables.entry table i) ∨ ∃ page ∈ tried, m.Passes space page table i

/-- These pages are mapped, the last one first. -/
structure Progress (m : PagingMachine) (space : AddressSpace) (mapped : List Page)
    (tables : PhysicalMemory) (r : FrameReserve) : Prop
    extends Spread m space mapped.reverse tables where
  growth : Growth m.reserve.Holds m.tables r tables
  anchored : ∀ page ∈ mapped, ∃ upper lower,
    Anchored m.reserve.Holds m.tables r tables (rootOf space) upper lower page
  layered : m.Levelled space → Layered m.reserve.Holds r tables (rootOf space)

variable {m : PagingMachine} {space : AddressSpace} {page : Page} {frame : Frame}
  {mapped tried : List Page} {tables tables' : PhysicalMemory} {r r₁ r' : FrameReserve}

theorem Progress.start (sound : m.Sound space) : Progress m space [] m.tables m.reserve where
  kept _ _ _ := .refl _
  opened _ none := absurd none List.not_mem_nil
  only _ _ _ _ user := .inl user
  growth := .refl m.tables sound.orderly fun _ => id
  anchored _ none := absurd none List.not_mem_nil
  layered level := ⟨level, sound.outside, fun table held => absurd held (sound.outside table)⟩

/-- What was not in use does not count. -/
theorem Spread.thinned (s : Spread m space tried tables)
    (thinned : Thinned m.reserve.Holds m.tables tables tables') : Spread m space tried tables' where
  kept f i old := by
    rw [thinned.kept f i old]
    exact s.kept f i old
  opened page hp f i passes old := by
    rw [thinned.kept f i old]
    exact s.opened page hp f i passes old
  only level f i old user := by
    rw [thinned.kept f i old] at user
    exact s.only level f i old user

/-- What a tried page adds, whether it can be mapped or not. -/
theorem Progress.spread_map (s : Progress m space mapped tables r) (sound : m.Sound space)
    (allocated : r.allocate = (some frame, r₁)) {answer : Except MapError Unit}
    (h : map (rootOf space) page frame (mappingFlags true) tables r₁ = (answer, tables', r')) :
    Spread m space (page :: mapped).reverse tables' := by
  obtain ⟨-, -, -, fewer⟩ := FrameReserve.allocate_some s.growth.orderly allocated
  have g := s.growth.allocate allocated
  have later := (Growth.refl tables s.growth.orderly fun _ => id).map allocated h
  have outside (f : Frame) (i : Fin tableLength)
      (met : (f, i) ∈ m.places space page) : ¬ m.reserve.Holds f := by
    obtain ⟨k, table⟩ := table_of_mem_places .root met
    exact sound.outside table
  refine ⟨(s.growth.map allocated h).kept, fun q hq f i passes old => ?_,
    fun level f i old user => ?_⟩
  · rw [List.reverse_cons, List.mem_append, List.mem_singleton] at hq
    obtain before | rfl := hq
    · exact (later.kept f i (s.growth.inUse old)).isUser (s.opened q before f i passes old)
    · exact isUser_mapBelow g (s.growth.taken allocated) h outside passes old.used
  · simp only [List.reverse_cons, List.mem_append, List.mem_singleton]
    obtain same | ⟨-, met⟩ := entry_mapBelow g ((s.layered level).allocate fewer) .root h old
    · exact (s.only level f i old (same ▸ user)).imp id fun ⟨q, hq, passes⟩ => ⟨q, .inl hq, passes⟩
    · exact .inr ⟨page, .inr rfl, met⟩

/-- The pages mapped before stay anchored. -/
theorem Progress.anchored_map (s : Progress m space mapped tables r)
    (allocated : r.allocate = (some frame, r₁)) {answer : Except MapError Unit}
    (h : map (rootOf space) page frame (mappingFlags true) tables r₁ = (answer, tables', r')) :
    ∀ q ∈ mapped, ∃ upper lower,
      Anchored m.reserve.Holds m.tables r' tables' (rootOf space) upper lower q := by
  intro q hq
  obtain ⟨upper, lower, a⟩ := s.anchored q hq
  have later := (Growth.refl tables s.growth.orderly fun _ => id).map allocated h
  exact ⟨upper, lower, a.grown later s.growth.fewer⟩

/-- A page that can be mapped joins the others. -/
theorem Progress.map_ok (s : Progress m space mapped tables r) (sound : m.Sound space)
    (allocated : r.allocate = (some frame, r₁))
    (h : map (rootOf space) page frame (mappingFlags true) tables r₁ = (.ok (), tables', r')) :
    Progress m space (page :: mapped) tables' r' where
  toSpread := s.spread_map sound allocated h
  growth := s.growth.map allocated h
  anchored := by
    refine List.forall_mem_cons.mpr ⟨?_, s.anchored_map allocated h⟩
    exact PageTable.anchored_map s.growth (sound.outside .root)
      (fun i f link => sound.outside (.next .root link)) allocated h
  layered level := by
    obtain ⟨-, -, -, fewer⟩ := FrameReserve.allocate_some s.growth.orderly allocated
    have g := s.growth.allocate allocated
    exact ((s.layered level).allocate fewer).mapBelow g.orderly g.fewer
      (s.growth.taken allocated) .root h

section Watched

variable {u v : Traced PagingMachine}

/-- The tables, and the pages that were to be mapped. -/
def seen (u : Traced PagingMachine) : PhysicalMemory × List (AddressSpace × Page × Bool) :=
  (u.machine.tables, mappedPages u.calls)

theorem seen_record (u : Traced PagingMachine) {calls : List Call} (m : PagingMachine)
    (none : mappedPages calls = []) :
    seen (u.record calls m) = (m.tables, mappedPages u.calls) := by
  rw [seen, Traced.calls_record, mappedPages_append, none, List.append_nil, Traced.machine_record]

theorem seen_giveBack (f : Frame) (u : Traced PagingMachine) : seen (giveBack f u) = seen u := by
  have releasing : releaseFrame f u = ((u.machine.putFrame f).1,
      u.record [.releaseFrame f] (u.machine.putFrame f).2) := rfl
  rw [giveBack, releasing]
  have released : seen (u.record [.releaseFrame f] (u.machine.putFrame f).2) = seen u :=
    seen_record u _ rfl
  cases (u.machine.putFrame f).1 with
  | none => exact released
  | some g => exact (seen_record _ _ rfl).trans released

theorem allocateFrame_eq {f : Option Frame} (h : u.machine.reserve.allocate = (f, r)) :
    allocateFrame u = (f, u.record [.allocateFrame f] { u.machine with reserve := r }) :=
  congrArg (fun c => (c.1, u.record [.allocateFrame c.1] { u.machine with reserve := c.2 })) h

theorem mapPage_eq {user : Bool} {result : Except MapError Unit}
    (h : map (rootOf space) page frame (mappingFlags user) u.machine.tables u.machine.reserve =
      (result, tables, r)) :
    mapPage space page frame user u = (result,
      u.record [.mapPage space page frame user] { u.machine with tables, reserve := r }) := by
  have mapped : mapWith space page frame (mappingFlags user) u.machine =
      (result, { u.machine with tables, reserve := r }) := by rw [mapWith, h]
  exact congrArg (fun c => (c.1, u.record [.mapPage space page frame user] c.2)) mapped

/-- A page is mapped only if there is a frame for it. -/
theorem mapFresh_cases {answer : Except (Option MapError) Unit}
    (h : mapFresh space page true u = (answer, v)) :
    (answer = .error none ∧ seen v = seen u) ∨
    ∃ frame r₁ result tables r', u.machine.reserve.allocate = (some frame, r₁) ∧
      map (rootOf space) page frame (mappingFlags true) u.machine.tables r₁ =
        (result, tables, r') ∧
      seen v = (tables, mappedPages u.calls ++ [(space, page, true)]) ∧
      (answer = .ok () → result = .ok () ∧ v.machine.reserve = r') := by
  rw [mapFresh] at h
  rcases ha : u.machine.reserve.allocate with ⟨none | frame, r₁⟩
  · rw [allocateFrame_eq ha] at h
    obtain ⟨rfl, rfl⟩ := Prod.mk.inj h
    exact .inl ⟨rfl, seen_record u _ rfl⟩
  · rcases hm : map (rootOf space) page frame (mappingFlags true) u.machine.tables r₁ with
      ⟨result, tables, r'⟩
    have seen_mapped : seen ((u.record [.allocateFrame (some frame)]
        { u.machine with reserve := r₁ }).record [.mapPage space page frame true]
          { u.machine with tables, reserve := r' }) =
        (tables, mappedPages u.calls ++ [(space, page, true)]) := by
      rw [seen, Traced.calls_record, Traced.calls_record, mappedPages_append, mappedPages_append]
      exact congrArg (tables, · ++ [(space, page, true)]) (List.append_nil _)
    rw [allocateFrame_eq ha] at h
    dsimp only at h
    rw [mapPage_eq hm] at h
    refine .inr ⟨frame, r₁, result, tables, r', rfl, hm, ?_⟩
    cases result with
    | ok =>
      obtain ⟨rfl, rfl⟩ := Prod.mk.inj h
      exact ⟨seen_mapped, fun _ => ⟨rfl, rfl⟩⟩
    | error e =>
      obtain ⟨rfl, rfl⟩ := Prod.mk.inj h
      exact ⟨(seen_giveBack frame _).trans seen_mapped, by simp⟩

/-- Taking anchored pages out harms no entry in use. -/
theorem unmapAndFree_watched {m₀ : PhysicalMemory} {free : Frame → Prop} (space : AddressSpace)
    (pages : List Page) (u : Traced PagingMachine)
    (unused : ∀ page ∈ pages, ∀ last, lastTable? tables page depth (rootOf space) = some last →
      ¬ InUse free m₀ last (index page 0))
    (thinned : Thinned free m₀ tables u.machine.tables) :
    Thinned free m₀ tables (unmapAndFree space pages u).machine.tables ∧
      mappedPages (unmapAndFree space pages u).calls = mappedPages u.calls := by
  induction pages generalizing u with
  | nil => exact ⟨thinned, rfl⟩
  | cons page pages ih =>
    obtain ⟨here, rest⟩ := List.forall_mem_cons.mp unused
    let out := unmap (rootOf space) page u.machine.tables
    have unmapping : unmapPage space page u = (out.1,
      u.record [.unmapPage space page] { u.machine with tables := out.2 }) := rfl
    have seen_out : seen (u.record [.unmapPage space page] { u.machine with tables := out.2 }) =
      (out.2, mappedPages u.calls) := seen_record u _ rfl
    have thinner : Thinned free m₀ tables out.2 := thinned.unmap here
    have step (w : Traced PagingMachine) (hw : seen w = (out.2, mappedPages u.calls)) :
        Thinned free m₀ tables (unmapAndFree space pages w).machine.tables ∧
          mappedPages (unmapAndFree space pages w).calls = mappedPages u.calls := by
      obtain ⟨same, calls⟩ := Prod.mk.inj hw
      obtain ⟨thinned, none⟩ := ih w rest (same ▸ thinner : Thinned free m₀ tables w.machine.tables)
      exact ⟨thinned, none.trans calls⟩
    rw [unmapAndFree, unmapping]
    cases out.1 with
    | none => exact step _ seen_out
    | some f => exact step _ ((seen_giveBack f _).trans seen_out)

/-- Mapping pages to fresh frames spreads over the pages that were tried, also if it fails. -/
theorem Progress.mapAllFresh (s : Progress m space mapped u.machine.tables u.machine.reserve)
    (sound : m.Sound space)
    (asked : mappedPages u.calls = mapped.reverse.map fun page => (space, page, true))
    {pages : List Page} {answer : Except (Option MapError) Unit}
    (h : mapAllFresh space true (fun _ _ => false) pages mapped u = (answer, v)) :
    ∃ tried, Spread m space tried v.machine.tables ∧
      mappedPages v.calls = tried.map fun page => (space, page, true) := by
  induction pages generalizing mapped u with
  | nil =>
    obtain ⟨-, rfl⟩ := Prod.mk.inj h
    exact ⟨mapped.reverse, s.toSpread, asked⟩
  | cons page pages ih =>
    rw [KernelCore.mapAllFresh, if_neg Bool.false_ne_true] at h
    rcases hf : mapFresh space page true u with ⟨e | _, w⟩
    · rw [hf] at h
      obtain ⟨-, rfl⟩ := Prod.mk.inj h
      obtain ⟨tried, spread, calls, r', anchored⟩ : ∃ tried,
          Spread m space tried w.machine.tables ∧
          mappedPages w.calls = tried.map (fun page => (space, page, true)) ∧
          ∃ r', ∀ q ∈ mapped, ∃ upper lower, Anchored m.reserve.Holds m.tables r'
            w.machine.tables (rootOf space) upper lower q := by
        obtain ⟨-, same⟩ | ⟨frame, r₁, result, tables, r', allocated, hm, same, -⟩ :=
          mapFresh_cases hf
        · obtain ⟨tables, calls⟩ := Prod.mk.inj same
          rw [tables, calls]
          exact ⟨mapped.reverse, s.toSpread, asked, u.machine.reserve, s.anchored⟩
        · obtain ⟨rfl, calls⟩ := Prod.mk.inj same
          refine ⟨(page :: mapped).reverse, s.spread_map sound allocated hm, ?_, r',
            s.anchored_map allocated hm⟩
          rw [calls, asked, List.reverse_cons, List.map_append, List.map_singleton]
      have unused (q : Page) (hq : q ∈ mapped.reverse) (last : Frame)
          (found : lastTable? w.machine.tables q depth (rootOf space) = some last) :
          ¬ m.Uses last (index q 0) := by
        obtain ⟨upper, lower, a⟩ := anchored q (List.mem_reverse.mp hq)
        exact a.not_inUse found
      obtain ⟨thinned, none⟩ :=
        unmapAndFree_watched space mapped.reverse w unused (.refl w.machine.tables)
      exact ⟨tried, spread.thinned thinned, none.trans calls⟩
    · rw [hf] at h
      obtain ⟨no, -⟩ | ⟨frame, r₁, result, tables, r', allocated, hm, same, ok⟩ :=
        mapFresh_cases hf
      · cases no
      · obtain ⟨rfl, rfl⟩ := ok rfl
        obtain ⟨rfl, calls⟩ := Prod.mk.inj same
        refine ih (s.map_ok sound allocated hm) ?_ h
        rw [calls, asked, List.reverse_cons, List.map_append, List.map_singleton]

/-- Filling memory leaves the tables alone, and maps nothing. -/
theorem steadyFilling_seen : SteadyFilling seen where
  view_zeroRange _ _ u := seen_record u _ rfl
  view_copyIn _ _ u := seen_record u _ rfl
  view_note _ u := seen_record u _ rfl

/-- A load spreads over the pages that it tried to map, however it ends. -/
theorem spread_load {image : ExecutableImage} (sound : m.Sound space)
    {answer : Outcome ImageError LoadedImage} (h : image.load space true ⟨m, []⟩ = (answer, u)) :
    ∃ tried, Spread m space tried u.machine.tables ∧
      mappedPages u.calls = tried.map fun page => (space, page, true) := by
  have start := Progress.start sound
  rw [ExecutableImage.load] at h
  split at h
  · obtain ⟨-, rfl⟩ := Prod.mk.inj h
    exact ⟨[], start.toSpread, rfl⟩
  · obtain ⟨-, rfl⟩ := Prod.mk.inj h
    exact ⟨[], start.toSpread, rfl⟩
  · rename_i entry segments _
    dsimp only at h
    split at h
    · rename_i e w hm
      obtain ⟨-, rfl⟩ := Prod.mk.inj h
      exact start.mapAllFresh sound rfl hm
    · rename_i w hm
      obtain ⟨-, rfl⟩ := Prod.mk.inj h
      obtain ⟨tables, calls⟩ := Prod.mk.inj (steadyFilling_seen.view_fillSegments image segments w)
      rw [tables, calls]
      exact start.mapAllFresh sound rfl hm

end Watched

/-- Ring 3 cannot reach the address, but every entry that keeps it out lies on the way to one of the
pages, above the last level. -/
def Exposes (m : PagingMachine) (space : AddressSpace) (tried : List Page) (a : Nat) : Prop :=
  m.userReaches space a = false ∧ ∀ x ∈ m.places space (.containing a),
    isUser (m.tables.entry x.1 x.2) = true ∨ ∃ page ∈ tried, m.Passes space page x.1 x.2

instance (m : PagingMachine) (space : AddressSpace) (tried : List Page) (a : Nat) :
    Decidable (m.Exposes space tried a) := by
  unfold Exposes Passes
  infer_instance

/-- An entry that a walk uses is in use. -/
theorem uses_of_mem_places (sound : m.Sound space) {a pa : Nat}
    (found : m.translate space a = some pa) {f : Frame} {i : Fin tableLength}
    (met : (f, i) ∈ m.places space (.containing a)) : m.Uses f i := by
  obtain ⟨k, table⟩ := table_of_mem_places .root met
  exact ⟨sound.outside table, ne_zero_of_isPresent (isPresent_of_mem_places found met)⟩

/-- However a load for ring 3 ends, every address that was mapped is mapped to where it was, and
ring 3 still reaches what it reached. It also reaches what the pages expose that the load tried to
map, and that is all it gains if no frame is a table of two levels. -/
theorem load_exposes_iff {image : ExecutableImage} (sound : m.Sound space)
    {answer : Outcome ImageError LoadedImage} {u : Traced PagingMachine}
    (h : image.load space true ⟨m, []⟩ = (answer, u)) :
    ∃ tried : List Page, mappedPages u.calls = tried.map (fun page => (space, page, true)) ∧
      ∀ a pa, m.translate space a = some pa →
        u.machine.translate space a = some pa ∧
        (m.userReaches space a → u.machine.userReaches space a) ∧
        (m.Exposes space tried a → u.machine.userReaches space a) ∧
        (m.Levelled space →
          (u.machine.userReaches space a = m.userReaches space a ↔ ¬ m.Exposes space tried a)) := by
  obtain ⟨tried, spread, calls⟩ := spread_load sound h
  refine ⟨tried, calls, fun a pa found => ?_⟩
  have uses {f : Frame} {i : Fin tableLength} (met : (f, i) ∈ m.places space (.containing a)) :=
    uses_of_mem_places sound found met
  obtain ⟨found', same⟩ := translateBelow_gains found fun f i met => spread.kept f i (uses met)
  have reaches_iff : u.machine.userReaches space a ↔
      ∀ f i, (f, i) ∈ m.places space (.containing a) → isUser (u.machine.tables.entry f i) := by
    rw [userReaches_iff found', places, same]
    rfl
  have stays (reach : m.userReaches space a) : u.machine.userReaches space a := by
    rw [userReaches_iff found] at reach
    exact reaches_iff.mpr fun f i met => (spread.kept f i (uses met)).isUser (reach f i met)
  have gained (exposes : m.Exposes space tried a) : u.machine.userReaches space a := by
    refine reaches_iff.mpr fun f i met => ?_
    obtain before | ⟨page, hp, passes⟩ := exposes.2 (f, i) met
    · exact (spread.kept f i (uses met)).isUser before
    · exact spread.opened page hp f i passes (uses met)
  refine ⟨found', stays, gained, fun level => ⟨fun kept exposes => ?_, fun hidden => ?_⟩⟩
  · have reach := gained exposes
    rw [kept, exposes.1] at reach
    exact absurd reach nofun
  · cases before : m.userReaches space a with
    | true => exact stays before
    | false =>
      refine Bool.eq_false_iff.mpr fun reach => hidden ⟨before, fun x met => ?_⟩
      exact spread.only level x.1 x.2 (uses met) (reaches_iff.mp reach x.1 x.2 met)

/-- A space with two large pages of the kernel next to each other, from `0x400000` on. -/
def largePages : PagingMachine where
  tables := (((PhysicalMemory.zeros.set ⟨1⟩ (index ⟨0x400⟩ 3) 0x2003).set ⟨2⟩ (index ⟨0x400⟩ 2)
    0x3003).set ⟨3⟩ (index ⟨0x400⟩ 1) 0x400083).set ⟨3⟩ (index ⟨0x600⟩ 1) 0x600083
  reserve := { next := 0x1000000, limit := 0x2000000 }

/-- Only two entries lead to a table. -/
theorem link?_largePages {table f : Frame} {i : Fin tableLength}
    (h : link? (largePages.tables.entry table i) = some f) :
    (table = ⟨1⟩ ∧ f = ⟨2⟩) ∨ (table = ⟨2⟩ ∧ f = ⟨3⟩) := by
  have large : link? 0x400083 = none ∧ link? 0x600083 = none := by decide
  have leads : link? 0x2003 = some ⟨2⟩ ∧ link? 0x3003 = some ⟨3⟩ := by decide
  simp only [largePages, entry_set, apply_ite link?, large, leads] at h
  split at h
  · exact absurd h nofun
  split at h
  · exact absurd h nofun
  split at h
  · rename_i here
    exact .inr ⟨here.1, (Option.some.inj h).symm⟩
  split at h
  · rename_i here
    exact .inl ⟨here.1, (Option.some.inj h).symm⟩
  · exact absurd h nofun

/-- The tables are the frames from 1 to 3, each on the level below the one before. -/
theorem number_of_table {below : Nat} {f : Frame}
    (h : Table largePages.tables (rootOf ⟨0x1000⟩) below f) : f.number + below = 4 := by
  induction h with
  | root => rfl
  | next upper link ih =>
    obtain ⟨rfl, rfl⟩ | ⟨rfl, rfl⟩ := link?_largePages link <;> dsimp only at ih ⊢ <;> omega

theorem levelled_largePages : largePages.Levelled ⟨0x1000⟩ := by
  intro j k f a b
  have := number_of_table a
  have := number_of_table b
  omega

theorem sound_largePages : largePages.Sound ⟨0x1000⟩ where
  orderly := by
    refine ⟨List.nodup_nil, fun _ none => absurd none List.not_mem_nil, fun f held => ?_⟩
    obtain none | ⟨-, high⟩ := held
    · exact absurd none List.not_mem_nil
    · exact Nat.lt_of_le_of_lt (Nat.le_add_right ..) (Nat.lt_trans high (by decide))
  outside table held := by
    have number := number_of_table table
    obtain none | ⟨low, -⟩ := held
    · exact absurd none List.not_mem_nil
    · change 0x1000000 ≤ _ * pageSize at low
      unfold pageSize at low
      omega

/-- What is left of the machine by an image that lies in the first of the two pages. -/
def overlapped : Traced PagingMachine :=
  (ExecutableImage.load .straddling ⟨0x1000⟩ true ⟨largePages, []⟩).2

theorem load_overlapped : ExecutableImage.load .straddling ⟨0x1000⟩ true ⟨largePages, []⟩ =
    (.error (.mapFailed .parentEntryHugePage), overlapped) := by
  have failed : (ExecutableImage.load .straddling ⟨0x1000⟩ true
      (⟨largePages, []⟩ : Traced PagingMachine)).1 =
        .error (.mapFailed .parentEntryHugePage) := by decide +kernel
  rw [← failed, overlapped]

/-- The page that the image does not overlap stays out of reach. -/
theorem load_exposes_iff_neighbour :
    overlapped.machine.translate ⟨0x1000⟩ 0x600abc = some 0x600abc ∧
      overlapped.machine.userReaches ⟨0x1000⟩ 0x600abc =
        largePages.userReaches ⟨0x1000⟩ 0x600abc := by
  obtain ⟨tried, calls, spreads⟩ := load_exposes_iff sound_largePages load_overlapped
  have asked : mappedPages overlapped.calls = [(⟨0x1000⟩, ⟨0x400⟩, true)] := by decide +kernel
  obtain rfl : tried = [⟨0x400⟩] := by
    have pages := congrArg (List.map fun c => c.2.1) (asked.symm.trans calls)
    simpa [Function.comp_def] using pages.symm
  obtain ⟨found, -, -, precise⟩ := spreads 0x600abc 0x600abc (by decide +kernel)
  exact ⟨found, (precise levelled_largePages).mpr (by decide +kernel)⟩

/-- Loading an image into a large page of the kernel fails, and ring 3 then reaches the page. -/
theorem large_page_exposed :
    largePages.Sound ⟨0x1000⟩ ∧
      ExecutableImage.load .straddling ⟨0x1000⟩ true ⟨largePages, []⟩ =
        (.error (.mapFailed .parentEntryHugePage), overlapped) ∧
      largePages.translate ⟨0x1000⟩ 0x400000 = some 0x400000 ∧
      largePages.userReaches ⟨0x1000⟩ 0x400000 = false ∧
      overlapped.machine.userReaches ⟨0x1000⟩ 0x400000 = true := by
  refine ⟨sound_largePages, load_overlapped, ?_, ?_, ?_⟩ <;> decide +kernel

end PagingMachine
end KernelCore
