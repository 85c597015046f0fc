import KernelCore.Proofs.PageWalks

/-!
# How page tables grow

Mapping a page changes entries in three ways: an entry on the way gains flags, an unused one gets a
fresh table, and the last one gets the frame. So an entry that was in use, in a table that is not up
for reuse, still leads where it led, and what it lacked of the flags it has now if the way to the
page goes through it. A page that was mapped is found again at an entry that was not in use before,
whatever was mapped since; so taking it out again harms nothing.
-/
namespace KernelCore

namespace FrameReserve

/-- The reserve can hand the frame out. -/
def Holds (r : FrameReserve) (f : Frame) : Prop :=
  f ∈ r.recycled ∨ (r.next ≤ f.start ∧ f.start + pageSize < r.limit)

/-- No frame is held twice, and every one has an address that an entry can hold. -/
structure Orderly (r : FrameReserve) : Prop where
  once : r.recycled.Nodup
  apart : ∀ f ∈ r.recycled, r.next ≤ f.start → r.limit ≤ f.start + pageSize
  small : ∀ f, r.Holds f → f.start < physicalLimit

variable {r r' : FrameReserve} {f : Frame}

theorem allocate_none (h : r.allocate = (none, r')) : r' = r := by
  rw [allocate] at h
  split at h
  · exact absurd (congrArg Prod.fst h) nofun
  · dsimp only at h
    split at h
    · exact (congrArg Prod.snd h).symm
    · exact absurd (congrArg Prod.fst h) nofun

theorem le_start_frameFrom (a : Nat) : a ≤ (frameFrom a).start := by
  unfold frameFrom Frame.start pageSize
  dsimp only
  omega

/-- A frame comes from the list or else from the start of the pool. -/
theorem allocate_cases (h : r.allocate = (some f, r')) :
    (∃ rest, r.recycled = f :: rest ∧ r' = { r with recycled := rest }) ∨
      (r.recycled = [] ∧ r.next ≤ f.start ∧ f.start + pageSize < r.limit ∧
        r' = { r with next := f.start + pageSize }) := by
  rw [allocate] at h
  split at h
  · rename_i g rest recycled
    obtain ⟨here, rfl⟩ := Prod.mk.inj h
    obtain rfl := Option.some.inj here
    exact .inl ⟨rest, recycled, rfl⟩
  · rename_i recycled
    dsimp only at h
    split at h
    · exact absurd (congrArg Prod.fst h) nofun
    · rename_i high
      obtain ⟨here, rfl⟩ := Prod.mk.inj h
      obtain rfl := Option.some.inj here
      exact .inr ⟨recycled, le_start_frameFrom r.next, Nat.not_le.mp high, rfl⟩

/-- A frame that was handed out is not handed out again. -/
theorem allocate_some (orderly : r.Orderly) (h : r.allocate = (some f, r')) :
    r'.Orderly ∧ r.Holds f ∧ ¬ r'.Holds f ∧ ∀ g, r'.Holds g → r.Holds g := by
  obtain ⟨rest, recycled, rfl⟩ | ⟨recycled, low, high, rfl⟩ := allocate_cases h
  · have mem {g : Frame} (old : g ∈ rest) : g ∈ r.recycled := recycled ▸ List.mem_cons_of_mem _ old
    have mine : f ∈ r.recycled := recycled ▸ List.mem_cons_self ..
    obtain ⟨only, once⟩ := List.nodup_cons.mp (recycled ▸ orderly.once)
    have fewer (g : Frame) (held : Holds { r with recycled := rest } g) : r.Holds g :=
      held.imp mem id
    refine ⟨⟨once, fun g old => orderly.apart g (mem old), fun g held =>
      orderly.small g (fewer g held)⟩, .inl mine, ?_, fewer⟩
    rintro (old | ⟨low, high⟩)
    · exact only old
    · exact absurd high (Nat.not_lt.mpr (orderly.apart f mine low))
  · have fewer (g : Frame) (held : Holds { r with next := f.start + pageSize } g) : r.Holds g :=
      held.imp id fun pool => ⟨Nat.le_trans low (Nat.le_trans (Nat.le_add_right ..) pool.1), pool.2⟩
    have none (g : Frame) : g ∉ r.recycled := recycled ▸ List.not_mem_nil
    refine ⟨⟨orderly.once, fun g old => absurd old (none g), fun g held =>
      orderly.small g (fewer g held)⟩, .inr ⟨low, high⟩, ?_, fewer⟩
    rintro (old | ⟨low, -⟩)
    · exact none f old
    · exact absurd low (by unfold pageSize; dsimp only; omega)

end FrameReserve

namespace PageTable

/-- The entry is in use, in a table that is not free to be taken. -/
structure InUse (free : Frame → Prop) (m : PhysicalMemory) (table : Frame) (i : Fin tableLength) :
    Prop where
  outside : ¬ free table
  used : m.entry table i ≠ 0

/-- What mapping pages makes of tables, if it takes frames of those that were free and leaves those
of the reserve. -/
structure Growth (free : Frame → Prop) (m₀ : PhysicalMemory) (r : FrameReserve)
    (m : PhysicalMemory) : Prop where
  orderly : r.Orderly
  fewer : ∀ f, r.Holds f → free f
  /-- An entry in use stays so and at most gains flags. -/
  kept : ∀ table i, InUse free m₀ table i → Gains (m₀.entry table i) (m.entry table i)
  /-- An entry that leads elsewhere than before leads to a frame taken since. -/
  origin : ∀ table i, m.entry table i = 0 ∨
    (m₀.entry table i ≠ 0 ∧ Gains (m₀.entry table i) (m.entry table i)) ∨
    (free (frameOf (m.entry table i)) ∧ ¬ r.Holds (frameOf (m.entry table i)))

variable {free : Frame → Prop} {r r' : FrameReserve} {m₀ m m' : PhysicalMemory} {page : Page}
  {below : Nat} {root table f frame : Frame} {i : Fin tableLength} {user : Bool}

theorem entry_set (m : PhysicalMemory) (table f : Frame) (i j : Fin tableLength) (e : UInt64) :
    (m.set table i e).entry f j = if f = table ∧ j = i then e else m.entry f j := rfl

theorem entry_clearTable (m : PhysicalMemory) (table f : Frame) (j : Fin tableLength) :
    (m.clearTable table).entry f j = if f = table then 0 else m.entry f j := rfl

/-- The flags that the kernel maps with, as the entries on the way take them over. -/
theorem mappingFlags_and_parentMask (user : Bool) :
    mappingFlags user &&& parentMask = mappingFlags user := by
  cases user <;> rfl

theorem gains_or_mappingFlags (e : UInt64) (user : Bool) : Gains e (e ||| mappingFlags user) :=
  ⟨mappingFlags user, by rw [mappingFlags_and_parentMask]⟩

theorem frameOf_entryFor_mappingFlags (user : Bool) (small : f.start < physicalLimit) :
    frameOf (entryFor f (mappingFlags user)) = f :=
  frameOf_entryFor small (by cases user <;> rfl)

theorem link?_entryFor (small : f.start < physicalLimit) :
    link? (entryFor f (mappingFlags user)) = some f := by
  have used : entryFor f (mappingFlags user) ≠ 0 := fun zero =>
    absurd (UInt64.or_eq_zero_iff.mp zero).2 (by cases user <;> decide)
  have plain : entryFor f (mappingFlags user) &&& hugeFlag = 0 := by
    have address : addressMask &&& hugeFlag = 0 := rfl
    have flags : mappingFlags user &&& hugeFlag = 0 := by cases user <;> rfl
    rw [entryFor, or_and_distrib, ← ofNat_start_and small, UInt64.and_assoc, address, flags,
      UInt64.and_zero, UInt64.zero_or]
  rw [link?, if_neg (by simp [used, isHuge, plain]), frameOf_entryFor_mappingFlags user small]

namespace Growth

theorem refl (m : PhysicalMemory) (orderly : r.Orderly) (fewer : ∀ f, r.Holds f → free f) :
    Growth free m r m where
  orderly := orderly
  fewer := fewer
  kept _ _ _ := .refl _
  origin table i := (Classical.em (m.entry table i = 0)).imp id fun used => .inl ⟨used, .refl _⟩

theorem inUse (g : Growth free m₀ r m) (h : InUse free m₀ table i) : InUse r.Holds m table i where
  outside held := h.outside (g.fewer table held)
  used := (g.kept table i h).ne_zero h.used

theorem set_gains (g : Growth free m₀ r m) {e : UInt64} (used : m.entry table i ≠ 0)
    (gains : Gains (m.entry table i) e) : Growth free m₀ r (m.set table i e) where
  orderly := g.orderly
  fewer := g.fewer
  kept f j h := by
    rw [entry_set]
    split
    · rename_i here
      obtain ⟨rfl, rfl⟩ := here
      exact (g.kept f j h).trans gains
    · exact g.kept f j h
  origin f j := by
    rw [entry_set]
    split
    · rename_i here
      obtain ⟨rfl, rfl⟩ := here
      obtain zero | ⟨old, before⟩ | new := g.origin f j
      · exact absurd zero used
      · exact .inr (.inl ⟨old, before.trans gains⟩)
      · exact .inr (.inr (by rwa [gains.frameOf_eq]))
    · exact g.origin f j

theorem set_fresh (g : Growth free m₀ r m) {e : UInt64} (unused : m.entry table i = 0)
    (fresh : free (frameOf e)) (taken : ¬ r.Holds (frameOf e)) :
    Growth free m₀ r (m.set table i e) where
  orderly := g.orderly
  fewer := g.fewer
  kept f j h := by
    rw [entry_set]
    split
    · rename_i here
      obtain ⟨rfl, rfl⟩ := here
      exact absurd unused (g.inUse h).used
    · exact g.kept f j h
  origin f j := by
    rw [entry_set]
    split
    · exact .inr (.inr ⟨fresh, taken⟩)
    · exact g.origin f j

theorem clearTable (g : Growth free m₀ r m) (held : free f) :
    Growth free m₀ r (m.clearTable f) where
  orderly := g.orderly
  fewer := g.fewer
  kept table i h := by
    rw [entry_clearTable, if_neg]
    · exact g.kept table i h
    · rintro rfl
      exact h.outside held
  origin table i := by
    rw [entry_clearTable]
    split
    · exact .inl rfl
    · exact g.origin table i

theorem allocate (g : Growth free m₀ r m) (h : r.allocate = (some f, r')) :
    Growth free m₀ r' m := by
  obtain ⟨orderly, -, -, fewer⟩ := FrameReserve.allocate_some g.orderly h
  refine ⟨orderly, fun f held => g.fewer f (fewer f held), g.kept, fun table i => ?_⟩
  exact (g.origin table i).imp id (.imp id fun new => ⟨new.1, fun held => new.2 (fewer _ held)⟩)

/-- An entry that is in use leads where it led. -/
theorem link?_eq (g : Growth free m₀ r m) (h : InUse free m₀ table i) :
    link? (m.entry table i) = link? (m₀.entry table i) :=
  (g.kept table i h).link?_eq h.used

/-- A table is one that the entry led to before, or else one that was taken from the reserve. -/
theorem link?_origin (g : Growth free m₀ r m) (h : link? (m.entry table i) = some f) :
    link? (m₀.entry table i) = some f ∨ (free f ∧ ¬ r.Holds f) := by
  obtain ⟨used, -, rfl⟩ := link?_eq_some h
  obtain zero | ⟨old, gains⟩ | new := g.origin table i
  · exact absurd zero used
  · exact .inl ((gains.link?_eq old).symm.trans h)
  · exact .inr new

end Growth

/-- A frame that was free has been taken from the reserve, to map a page to it. -/
structure Taken (free : Frame → Prop) (r : FrameReserve) (frame : Frame) : Prop where
  small : frame.start < physicalLimit
  fresh : free frame
  gone : ¬ r.Holds frame

theorem Growth.taken (g : Growth free m₀ r m) (h : r.allocate = (some frame, r')) :
    Taken free r' frame := by
  obtain ⟨-, held, gone, -⟩ := FrameReserve.allocate_some g.orderly h
  exact ⟨g.orderly.small frame held, g.fewer frame held, gone⟩

/-- Preparing an entry ends in one of three ways. -/
theorem enter_cases {flags : UInt64} {answer : Except MapError Frame}
    (h : enter flags table i m r = (answer, m', r')) :
    (m.entry table i ≠ 0 ∧ m' = m.set table i (m.entry table i ||| flags) ∧ r' = r ∧
      ∀ f, answer = .ok f ↔ link? (m.entry table i) = some f) ∨
    (m.entry table i = 0 ∧ ∃ f, r.allocate = (some f, r') ∧
      m' = (m.set table i (entryFor f flags)).clearTable f ∧ answer = .ok f) ∨
    (m.entry table i = 0 ∧ m' = m ∧ r' = r ∧ answer = .error .frameAllocationFailed) := by
  rw [enter] at h
  dsimp only at h
  split at h
  · rename_i unused
    split at h
    · rename_i none
      obtain ⟨rfl, rfl, rfl⟩ : _ ∧ _ ∧ _ := by simpa using h
      exact .inr (.inr ⟨unused, rfl, FrameReserve.allocate_none none, rfl⟩)
    · rename_i f _ some
      obtain ⟨rfl, rfl, rfl⟩ : _ ∧ _ ∧ _ := by simpa using h
      exact .inr (.inl ⟨unused, f, some, rfl, rfl⟩)
  · rename_i used
    split at h
    · rename_i huge
      obtain ⟨rfl, rfl, rfl⟩ : _ ∧ _ ∧ _ := by simpa using h
      refine .inl ⟨used, rfl, rfl, fun f => ?_⟩
      rw [link?_of_isHuge huge]
      exact ⟨nofun, nofun⟩
    · rename_i plain
      obtain ⟨rfl, rfl, rfl⟩ : _ ∧ _ ∧ _ := by simpa using h
      refine .inl ⟨used, rfl, rfl, fun f => ?_⟩
      rw [link?, if_neg (by simp [used, plain])]
      exact ⟨fun h => congrArg some (Except.ok.inj h),
        fun h => congrArg Except.ok (Option.some.inj h)⟩

/-- Mapping a page below a table goes on below the next one, unless its entry cannot be prepared. -/
theorem mapBelow_succ_cases {answer : Except MapError Unit}
    (h : mapBelow page frame (mappingFlags user) (below + 1) table m r = (answer, m', r')) :
    (∃ f m₁ r₁, enter (mappingFlags user) table (index page (below + 1)) m r = (.ok f, m₁, r₁) ∧
      mapBelow page frame (mappingFlags user) below f m₁ r₁ = (answer, m', r')) ∨
    (∃ e, enter (mappingFlags user) table (index page (below + 1)) m r = (.error e, m', r') ∧
      answer = .error e) := by
  rw [mapBelow, mappingFlags_and_parentMask] at h
  rcases he : enter (mappingFlags user) table (index page (below + 1)) m r with ⟨e | f, m₁, r₁⟩
  · rw [he] at h
    obtain ⟨rfl, rfl, rfl⟩ : _ ∧ _ ∧ _ := by simpa using h
    exact .inr ⟨e, rfl, rfl⟩
  · rw [he] at h
    exact .inl ⟨f, m₁, r₁, rfl, h⟩

theorem mapBelow_succ_ok
    (h : mapBelow page frame (mappingFlags user) (below + 1) table m r = (.ok (), m', r')) :
    ∃ f m₁ r₁, enter (mappingFlags user) table (index page (below + 1)) m r = (.ok f, m₁, r₁) ∧
      mapBelow page frame (mappingFlags user) below f m₁ r₁ = (.ok (), m', r') := by
  obtain on | ⟨e, -, no⟩ := mapBelow_succ_cases h
  · exact on
  · exact absurd no nofun

/-- A page gets an entry of the last level only if it has none. -/
theorem mapBelow_zero_ok
    (h : mapBelow page frame (mappingFlags user) 0 table m r = (.ok (), m', r')) :
    m.entry table (index page 0) = 0 ∧
      m' = m.set table (index page 0) (entryFor frame (mappingFlags user)) ∧ r' = r := by
  rw [mapBelow] at h
  split at h
  · exact absurd (congrArg Prod.fst h) nofun
  · rename_i unused
    obtain ⟨rfl, rfl⟩ : _ ∧ _ := by simpa using h
    exact ⟨Classical.not_not.mp unused, rfl, rfl⟩

namespace Growth

theorem enter (g : Growth free m₀ r m) {answer : Except MapError Frame}
    (h : enter (mappingFlags user) table i m r = (answer, m', r')) : Growth free m₀ r' m' := by
  obtain ⟨used, rfl, rfl, -⟩ | ⟨unused, f, taken, rfl, -⟩ | ⟨-, rfl, rfl, -⟩ := enter_cases h
  · exact g.set_gains used (gains_or_mappingFlags _ user)
  · obtain ⟨-, held, gone, -⟩ := FrameReserve.allocate_some g.orderly taken
    have leads := frameOf_entryFor_mappingFlags user (g.orderly.small f held)
    refine ((g.allocate taken).set_fresh unused ?_ ?_).clearTable (g.fewer f held)
    · rw [leads]
      exact g.fewer f held
    · rw [leads]
      exact gone
  · exact g

theorem fewer_enter (orderly : r.Orderly) {answer : Except MapError Frame}
    (h : PageTable.enter (mappingFlags user) table i m r = (answer, m', r')) :
    ∀ f, r'.Holds f → r.Holds f :=
  ((refl m orderly fun _ => id).enter h).fewer

end Growth

theorem Taken.enter (t : Taken free r frame) (orderly : r.Orderly)
    {answer : Except MapError Frame}
    (h : enter (mappingFlags user) table i m r = (answer, m', r')) : Taken free r' frame :=
  ⟨t.small, t.fresh, fun held => t.gone (Growth.fewer_enter orderly h frame held)⟩

namespace Growth

theorem mapBelow (g : Growth free m₀ r m) (t : Taken free r frame) {answer : Except MapError Unit}
    (h : mapBelow page frame (mappingFlags user) below table m r = (answer, m', r')) :
    Growth free m₀ r' m' := by
  induction below generalizing table m r with
  | zero =>
    rw [PageTable.mapBelow] at h
    split at h
    · obtain ⟨-, rfl, rfl⟩ : _ ∧ _ ∧ _ := by simpa using h
      exact g
    · rename_i unused
      obtain ⟨-, rfl, rfl⟩ : _ ∧ _ ∧ _ := by simpa using h
      have leads := frameOf_entryFor_mappingFlags user t.small
      refine g.set_fresh (Classical.not_not.mp unused) ?_ ?_ <;> rw [leads]
      · exact t.fresh
      · exact t.gone
  | succ below ih =>
    obtain ⟨f, m₁, r₁, entered, rest⟩ | ⟨e, entered, -⟩ := mapBelow_succ_cases h
    · exact ih (g.enter entered) (t.enter g.orderly entered) rest
    · exact g.enter entered

/-- Mapping a page to a fresh frame. -/
theorem map (g : Growth free m₀ r m) {r₁ : FrameReserve} (allocated : r.allocate = (some frame, r₁))
    {answer : Except MapError Unit}
    (h : PageTable.map root page frame (mappingFlags user) m r₁ = (answer, m', r')) :
    Growth free m₀ r' m' :=
  (g.allocate allocated).mapBelow (g.taken allocated) h

/-- What there is when the first entry is prepared grows on. -/
theorem mapBelow_succ (g : Growth free m₀ r m) (t : Taken free r frame)
    {answer : Except MapError Unit}
    (h : PageTable.mapBelow page frame (mappingFlags user) (below + 1) table m r =
      (answer, m', r')) :
    ∃ entered m₁ r₁, PageTable.enter (mappingFlags user) table (index page (below + 1)) m r =
      (entered, m₁, r₁) ∧ Growth free m₀ r₁ m₁ ∧ Growth free m₁ r' m' := by
  obtain ⟨f, m₁, r₁, entered, rest⟩ | ⟨e, entered, -⟩ := mapBelow_succ_cases h
  · have g₁ := g.enter entered
    have later := (refl m₁ g₁.orderly g₁.fewer).mapBelow (t.enter g.orderly entered) rest
    exact ⟨_, m₁, r₁, entered, g₁, later⟩
  · have g₁ := g.enter entered
    exact ⟨_, m', r', entered, g₁, refl m' g₁.orderly g₁.fewer⟩

end Growth

/-- An entry that leads to a table can be prepared. -/
theorem enter_of_link {flags : UInt64} {answer : Except MapError Frame}
    (link : link? (m.entry table i) = some f)
    (h : enter flags table i m r = (answer, m', r')) : answer = .ok f := by
  have used := (link?_eq_some link).1
  obtain ⟨-, -, -, leads⟩ | ⟨unused, -⟩ | ⟨unused, -⟩ := enter_cases h
  · exact (leads f).mpr link
  · exact absurd unused used
  · exact absurd unused used

/-- The entry that was prepared leads to the table to go on with, if it leads to one: a table that
was handed out as its own next table is empty. -/
theorem link?_enter (orderly : r.Orderly)
    (h : enter (mappingFlags user) table i m r = (.ok f, m', r')) :
    link? (m'.entry table i) = some f ∨ (r.Holds table ∧ link? (m'.entry table i) = none) := by
  obtain ⟨used, rfl, -, answer⟩ | ⟨-, g, taken, rfl, here⟩ | ⟨-, -, -, no⟩ := enter_cases h
  · rw [PhysicalMemory.entry_set_self, (gains_or_mappingFlags _ user).link?_eq used]
    exact .inl ((answer f).mp rfl)
  · obtain rfl := Except.ok.inj here
    obtain ⟨-, held, -⟩ := FrameReserve.allocate_some orderly taken
    rw [entry_clearTable]
    split
    · rename_i same
      exact .inr ⟨same ▸ held, rfl⟩
    · rw [PhysicalMemory.entry_set_self]
      exact .inl (link?_entryFor (orderly.small f held))
  · exact absurd no nofun

theorem link?_enter_of_outside (orderly : r.Orderly) (outside : ¬ r.Holds table)
    (h : enter (mappingFlags user) table i m r = (.ok f, m', r')) :
    link? (m'.entry table i) = some f :=
  (link?_enter orderly h).resolve_right fun own => outside own.1

end PageTable
end KernelCore
