import KernelCore.Proofs.TableGrowth

/-!
# Taking pages out again

A page that was mapped is found at an entry that was not in use when the mapping began, also after
more pages have been mapped: the first two tables of the walk are no longer free, and the third can
only have been taken anew, in which case it leads to frames that were free. So taking such pages out
clears no entry that was in use.
-/
namespace KernelCore
namespace PageTable

variable {free : Frame → Prop} {r r' : FrameReserve} {m₀ m m' : PhysicalMemory} {page : Page}
  {below : Nat} {root table f frame : Frame} {i : Fin tableLength} {user : Bool}

/-- The walk to a page ends, if at all, at an entry that was not in use. What is mapped in addition
does not change that, since the first two tables of the walk cannot be taken any more. -/
structure Anchored (free : Frame → Prop) (m₀ : PhysicalMemory) (r : FrameReserve)
    (m : PhysicalMemory) (root upper lower : Frame) (page : Page) : Prop where
  rootOutside : ¬ r.Holds root
  rootLink : link? (m.entry root (index page 3)) = some upper
  upperOutside : ¬ r.Holds upper
  upperLink : link? (m.entry upper (index page 2)) = some lower
  unused : ∀ last, link? (m.entry lower (index page 1)) = some last →
    ¬ InUse free m₀ last (index page 0)

theorem Anchored.grown {upper lower : Frame} (a : Anchored free m₀ r m root upper lower page)
    (g : Growth r.Holds m r' m') (fewer : ∀ f, r.Holds f → free f) :
    Anchored free m₀ r' m' root upper lower page where
  rootOutside held := a.rootOutside (g.fewer root held)
  rootLink := (g.link?_eq ⟨a.rootOutside, (link?_eq_some a.rootLink).1⟩).trans a.rootLink
  upperOutside held := a.upperOutside (g.fewer upper held)
  upperLink := (g.link?_eq ⟨a.upperOutside, (link?_eq_some a.upperLink).1⟩).trans a.upperLink
  unused last link := by
    obtain before | new := g.link?_origin link
    · exact a.unused last before
    · exact fun old => old.outside (fewer last new.1)

/-- The entry that was prepared still leads to the same table when the page is mapped. -/
theorem link?_mapBelow (orderly : r.Orderly) (outside : ¬ r.Holds table) (apart : table ≠ frame)
    (t : Taken free r frame) {m₁ : PhysicalMemory} {r₁ : FrameReserve}
    (entered : enter (mappingFlags user) table i m r = (.ok f, m₁, r₁))
    {answer : Except MapError Unit}
    (h : mapBelow page frame (mappingFlags user) below f m₁ r₁ = (answer, m', r')) :
    link? (m'.entry table i) = some f := by
  have link := link?_enter_of_outside orderly outside entered
  have g₁ := (Growth.refl m orderly fun _ => id).enter entered
  have t₁ : Taken (fun f => r₁.Holds f ∨ f = frame) r₁ frame :=
    ⟨t.small, .inr rfl, (t.enter orderly entered).gone⟩
  have later := (Growth.refl m₁ g₁.orderly fun _ => .inl).mapBelow t₁ h
  refine (later.link?_eq ⟨?_, (link?_eq_some link).1⟩).trans link
  rintro (held | same)
  · exact outside (g₁.fewer table held)
  · exact apart same

theorem anchored_map (g : Growth free m₀ r m) (outside : ¬ free root)
    (links : ∀ i f, link? (m₀.entry root i) = some f → ¬ free f) {r₁ : FrameReserve}
    (allocated : r.allocate = (some frame, r₁))
    (h : map root page frame (mappingFlags user) m r₁ = (.ok (), m', r')) :
    ∃ upper lower, Anchored free m₀ r' m' root upper lower page := by
  obtain ⟨orderly, held, gone, fewer⟩ := FrameReserve.allocate_some g.orderly allocated
  have t := g.taken allocated
  obtain ⟨upper, m₁, r₂, enters₁, rest₁⟩ := mapBelow_succ_ok (h : mapBelow _ _ _ 3 _ _ _ = _)
  obtain ⟨lower, m₂, r₃, enters₂, rest₂⟩ := mapBelow_succ_ok rest₁
  obtain ⟨last, m₃, r₄, enters₃, rest₃⟩ := mapBelow_succ_ok rest₂
  obtain ⟨unused, rfl, rfl⟩ := mapBelow_zero_ok rest₃
  have g₁ := (g.allocate allocated).enter enters₁
  have g₂ := g₁.enter enters₂
  have g₃ := g₂.enter enters₃
  have fewer₁ := Growth.fewer_enter orderly enters₁
  have fewer₂ := Growth.fewer_enter g₁.orderly enters₂
  have fewer₃ := Growth.fewer_enter g₂.orderly enters₃
  have rootOutside : ¬ r₁.Holds root := fun own => outside (g.fewer root (fewer root own))
  have link₁ := link?_enter_of_outside orderly rootOutside enters₁
  -- A table below the root was there before, outside the reserve, or has just been taken.
  have upperOutside : ¬ r₂.Holds upper ∧ upper ≠ frame := by
    obtain before | new := ((Growth.refl m orderly fun _ => id).enter enters₁).link?_origin link₁
    · have away : ¬ r.Holds upper := by
        obtain old | new := g.link?_origin before
        · exact fun own => links _ _ old (g.fewer upper own)
        · exact new.2
      exact ⟨fun own => away (fewer upper (fewer₁ upper own)), fun same => away (same ▸ held)⟩
    · exact ⟨new.2, fun same => gone (same ▸ new.1)⟩
  refine ⟨upper, lower, fun own => rootOutside (fewer₁ _ (fewer₂ _ (fewer₃ _ own))),
    link?_mapBelow orderly rootOutside ?_ t enters₁ rest₁,
    fun own => upperOutside.1 (fewer₂ _ (fewer₃ _ own)),
    link?_mapBelow g₁.orderly upperOutside.1 upperOutside.2 (t.enter orderly enters₁) enters₂ rest₂,
    fun f link old => ?_⟩
  · rintro rfl
    exact outside t.fresh
  · rw [entry_set] at link
    split at link
    · rw [link?_entryFor t.small] at link
      exact old.outside (Option.some.inj link ▸ t.fresh)
    · obtain here | ⟨-, none⟩ := link?_enter g₂.orderly enters₃
      · obtain rfl := Option.some.inj (here.symm.trans link)
        exact (g₃.inUse old).used unused
      · exact absurd (none.symm.trans link) nofun

theorem lastTable?_succ {last : Frame} (h : lastTable? m page (below + 1) table = some last) :
    ∃ f, link? (m.entry table (index page (below + 1))) = some f ∧
      lastTable? m page below f = some last := by
  rw [lastTable?] at h
  split at h
  · rename_i f next
    exact ⟨f, link?_of_next? next, h⟩
  · exact absurd h nofun

/-- An anchored page has no entry that was in use. -/
theorem Anchored.not_inUse {upper lower : Frame} (a : Anchored free m₀ r m root upper lower page)
    {last : Frame} (found : lastTable? m page depth root = some last) :
    ¬ InUse free m₀ last (index page 0) := by
  obtain ⟨f, link, found⟩ := lastTable?_succ (found : lastTable? m page 3 root = some last)
  obtain rfl := Option.some.inj (a.rootLink.symm.trans link)
  obtain ⟨f, link, found⟩ := lastTable?_succ found
  obtain rfl := Option.some.inj (a.upperLink.symm.trans link)
  obtain ⟨f, link, found⟩ := lastTable?_succ found
  obtain rfl := Option.some.inj found
  exact a.unused f link

/-- Entries were cleared, but none of those that were in use at first. -/
structure Thinned (free : Frame → Prop) (m₀ m m' : PhysicalMemory) : Prop where
  thinner : ∀ table i, m'.entry table i = m.entry table i ∨ m'.entry table i = 0
  kept : ∀ table i, InUse free m₀ table i → m'.entry table i = m.entry table i

namespace Thinned

theorem refl (m : PhysicalMemory) : Thinned free m₀ m m := ⟨fun _ _ => .inl rfl, fun _ _ _ => rfl⟩

/-- A page that is still found is found where it was. -/
theorem lastTable?_eq (t : Thinned free m₀ m m') (h : lastTable? m' page below table = some f) :
    lastTable? m page below table = some f := by
  induction below generalizing table with
  | zero => exact h
  | succ below ih =>
    rw [lastTable?] at h ⊢
    obtain same | zero := t.thinner table (index page (below + 1))
    · rw [same] at h
      split at h
      · exact ih h
      · exact absurd h nofun
    · rw [zero] at h
      exact absurd h nofun

/-- Taking out a page clears at most the entry that it is found at. -/
theorem unmap (t : Thinned free m₀ m m')
    (unused : ∀ last, lastTable? m page depth root = some last →
      ¬ InUse free m₀ last (index page 0)) :
    Thinned free m₀ m (unmap root page m').2 := by
  rw [PageTable.unmap]
  split
  · exact t
  · rename_i last found
    split
    · exact t
    · refine ⟨fun table i => ?_, fun table i old => ?_⟩ <;> dsimp only <;> rw [entry_set] <;> split
      · exact .inr rfl
      · exact t.thinner table i
      · rename_i here
        exact absurd (here.1 ▸ here.2 ▸ old) (unused last (t.lastTable?_eq found))
      · exact t.kept table i old

end Thinned

end PageTable
end KernelCore
