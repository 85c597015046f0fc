import KernelCore.Proofs.ExposedMappings
import KernelCore.Proofs.LawfulPlatform
import KernelCore.Proofs.TablePaths

/-!
# Spaces beside each other

A new space starts with the top-level entries of the active one. So what lies below an entry that
was in use then belongs to both spaces ever after, and a page mapped there through one of them is
mapped in the other. Below an entry that was not in use each space makes tables of its own: as long
as no frame serves as a table of two levels, the ways to a page through two spaces meet only if they
do so in the top-level table, and what is mapped on one way does not show on the other.
-/
namespace KernelCore
namespace PageTable

/-- From both roots the path leads to the same table. -/
def Meet (m : PhysicalMemory) (R R' : Frame) (path : List (Fin tableLength)) : Prop :=
  ∃ k f, Leads m R k path f ∧ Leads m R' k path f

/-- The spaces with these roots have no table in the reserve and none on two levels, and ways that
have met met first in a top-level table. -/
structure Housed (roots : List Frame) (r : FrameReserve) (m : PhysicalMemory) : Prop where
  orderly : r.Orderly
  outside : ∀ {R k π f}, R ∈ roots → Leads m R k π f → ¬ r.Holds f
  level : ∀ {R R' j k π ρ f}, R ∈ roots → R' ∈ roots → Leads m R j π f → Leads m R' k ρ f → j = k
  branch : ∀ {R R' i j π}, R ∈ roots → R' ∈ roots →
    Meet m R R' (i :: j :: π) → Meet m R R' (j :: π)

/-- What a mapping of the page through the space with root `R` leaves alone: the spaces that share a
top-level table, and where the page lies in a space that does not share its top-level table. -/
structure Apart (roots : List Frame) (R : Frame) (page : Page) (m m' : PhysicalMemory) : Prop where
  meets : ∀ A ∈ roots, ∀ B ∈ roots, A ≠ B → ∀ i, Meet m' A B [i] ↔ Meet m A B [i]
  elsewhere : ∀ B ∈ roots, R ≠ B → ¬ Meet m R B [index page depth] → ∀ a,
    Page.containing a = page → translateBelow m' a depth B = translateBelow m a depth B

variable {roots : List Frame} {r r' : FrameReserve} {m m' m'' : PhysicalMemory} {page : Page}
  {below j k a : Nat} {R R' B B' root table t f g frame : Frame} {i : Fin tableLength}
  {π ρ : List (Fin tableLength)} {user : Bool} {e : UInt64}

theorem leads_top :
    Leads m R k [i] f ↔ k + 1 = depth ∧ link? (m.entry R i) = some f := by
  constructor
  · intro way
    obtain ⟨table, upper, link⟩ := way.inv
    obtain rfl := upper.unique .root
    exact ⟨by simpa using upper.length, link⟩
  · rintro ⟨top, link⟩
    obtain rfl : k = 2 := by simpa [depth] using top
    exact Leads.next .root link

theorem meet_top :
    Meet m R R' [i] ↔ ∃ f, link? (m.entry R i) = some f ∧ link? (m.entry R' i) = some f := by
  simp only [Meet, leads_top]
  constructor
  · rintro ⟨k, f, ⟨-, link⟩, -, link'⟩
    exact ⟨f, link, link'⟩
  · rintro ⟨f, link, link'⟩
    exact ⟨2, f, ⟨rfl, link⟩, rfl, link'⟩

theorem meet_congr (same : ∀ k f, Leads m' R k π f ↔ Leads m B k π f)
    (same' : ∀ k f, Leads m' R' k π f ↔ Leads m B' k π f) : Meet m' R R' π ↔ Meet m B B' π := by
  simp only [Meet, same, same']

/-- An address is found in the same place if no entry has changed that its way meets. -/
theorem translateBelow_congr (same : ∀ f i, (f, i) ∈ places m (.containing a) below table →
    m'.entry f i = m.entry f i) : translateBelow m' a below table = translateBelow m a below table := by
  induction below generalizing table with
  | zero => simp only [translateBelow, same _ _ (List.mem_singleton.mpr rfl)]
  | succ below ih =>
    have here := same _ _ (List.mem_cons_self ..)
    simp only [translateBelow, here]
    by_cases present : isPresent (m.entry table (index (.containing a) (below + 1)))
    · cases huge : isHuge (m.entry table (index (.containing a) (below + 1))) with
      | true => rfl
      | false =>
        rw [places_of_link (link?_of_isPresent present huge)] at same
        have rest := ih fun f i met => same f i (List.mem_cons_of_mem _ met)
        simp only [rest]
    · simp only [present, Bool.false_eq_true, if_false]

/-- A page that has a present entry of the last level is found at the frame of this entry. -/
theorem translateBelow_of_lastTable? (found : lastTable? m (.containing a) below table = some f)
    (present : isPresent (m.entry f (index (.containing a) 0))) :
    translateBelow m a below table =
      some (physical (m.entry f (index (.containing a) 0)) 0 a) := by
  induction below generalizing table with
  | zero =>
    obtain rfl := Option.some.inj found
    rw [translateBelow, if_pos present]
  | succ below ih =>
    rw [lastTable?] at found
    split at found
    · rename_i next
      obtain ⟨present', plain, rfl⟩ := next?_eq_some next
      exact (translateBelow_succ rfl).mpr ⟨present', .inl ⟨plain, ih found⟩⟩
    · cases found

/-- Preparing an entry changes this entry and a table of the reserve. -/
theorem entry_enter_other (orderly : r.Orderly) {answer : Except MapError Frame}
    (h : enter (mappingFlags user) table i m r = (answer, m', r')) (outside : ¬ r.Holds t)
    {j : Fin tableLength} (other : t = table → j ≠ i) : m'.entry t j = m.entry t j := by
  have other' : ¬ (t = table ∧ j = i) := fun here => other here.1 here.2
  obtain ⟨-, rfl, -⟩ | ⟨-, f, taken, rfl, -⟩ | ⟨-, rfl, -⟩ := enter_cases h
  · rw [entry_set, if_neg other']
  · obtain ⟨-, held, -⟩ := FrameReserve.allocate_some orderly taken
    rw [entry_clearTable, if_neg fun same : t = f => outside (same ▸ held), entry_set, if_neg other']
  · rfl

theorem isPresent_enter (orderly : r.Orderly) (outside : ¬ r.Holds table)
    (h : enter (mappingFlags user) table i m r = (.ok f, m', r')) :
    isPresent (m'.entry table i) := by
  obtain ⟨-, rfl, -⟩ | ⟨-, g, taken, rfl, -⟩ | ⟨-, -, -, no⟩ := enter_cases h
  · rw [PhysicalMemory.entry_set_self]
    exact isPresent_or_mappingFlags _ user
  · obtain ⟨-, held, -⟩ := FrameReserve.allocate_some orderly taken
    rw [entry_clearTable, if_neg fun same : table = g => outside (same ▸ held),
      PhysicalMemory.entry_set_self]
    exact isPresent_or_mappingFlags _ user
  · exact absurd no nofun

namespace Apart

theorem refl : Apart roots R page m m := ⟨fun _ _ _ _ _ _ => .rfl, fun _ _ _ _ _ _ => rfl⟩

theorem trans (hR : R ∈ roots) (h : Apart roots R page m m') (h' : Apart roots R page m' m'') :
    Apart roots R page m m'' where
  meets A hA B hB ne i := (h'.meets A hA B hB ne i).trans (h.meets A hA B hB ne i)
  elsewhere B hB ne unmet a ha :=
    (h'.elsewhere B hB ne (fun meet => unmet ((h.meets R hR B hB ne _).mp meet)) a ha).trans
      (h.elsewhere B hB ne unmet a ha)

end Apart

namespace Housed

/-- Ways that have met go through the same top-level table. -/
theorem meet_top_of_meet (h : Housed roots r m) (hR : R ∈ roots) (hR' : R' ∈ roots)
    (meet : Meet m R R' (π ++ [i])) : Meet m R R' [i] := by
  induction π with
  | nil => exact meet
  | cons j π ih =>
    cases π with
    | nil => exact h.branch hR hR' meet
    | cons k π => exact ih (h.branch hR hR' meet)

/-- Where the page lies in a space that does not share its top-level table is not touched by a change
to one table on the way to the page, nor by one to the frames of the reserve. -/
theorem translate_elsewhere (h : Housed roots r m) (hR : R ∈ roots) (hB : B ∈ roots) (ne : R ≠ B)
    (unmet : ¬ Meet m R B [index page depth]) (upper : Leads m R k (wayTo page k) table)
    (entries : ∀ t j, ¬ r.Holds t → (t = table → j ≠ index page k) → m'.entry t j = m.entry t j)
    (ha : Page.containing a = page) :
    translateBelow m' a depth B = translateBelow m a depth B := by
  refine translateBelow_congr fun t j met => ?_
  rw [ha] at met
  obtain ⟨k', way, rfl⟩ := leads_of_mem_places .root met
  refine entries t _ (h.outside hB way) ?_
  rintro rfl
  obtain rfl := h.level hR hB upper way
  obtain lower | top := Nat.lt_or_eq_of_le upper.le_depth
  · obtain ⟨π, concat⟩ := wayTo_concat page lower
    rw [concat] at upper way
    exact absurd (h.meet_top_of_meet hR hB ⟨k, t, upper, way⟩) unmet
  · subst top
    exact absurd ((upper.unique .root).symm.trans (way.unique .root)) ne

theorem congr (h : Housed roots r m)
    (same : ∀ R ∈ roots, ∀ k π f, Leads m' R k π f ↔ Leads m R k π f) : Housed roots r m' where
  orderly := h.orderly
  outside hR way := h.outside hR ((same _ hR ..).mp way)
  level hR hR' way way' := h.level hR hR' ((same _ hR ..).mp way) ((same _ hR' ..).mp way')
  branch hR hR' meet :=
    (meet_congr (same _ hR · _) (same _ hR' · _)).mpr
      (h.branch hR hR' ((meet_congr (same _ hR · _) (same _ hR' · _)).mp meet))

/-- A change that leaves all ways as they are, at one entry on the way to the page. -/
theorem apart_of_same (h : Housed roots r m) (hR : R ∈ roots)
    (same : ∀ A ∈ roots, ∀ k π f, Leads m' A k π f ↔ Leads m A k π f)
    (upper : Leads m R k (wayTo page k) table)
    (entries : ∀ t j, ¬ r.Holds t → (t = table → j ≠ index page k) →
      m'.entry t j = m.entry t j) : Apart roots R page m m' where
  meets A hA B hB _ _ := meet_congr (same A hA · _) (same B hB · _)
  elsewhere _ hB ne unmet _ ha := h.translate_elsewhere hR hB ne unmet upper entries ha

/-- The ways that there are once an unused entry has got a fresh table. -/
theorem leads_fresh (h : Housed roots r m) (hR : R ∈ roots)
    (upper : Leads m R (below + 1) π table) (unused : m.entry table i = 0)
    (taken : r.allocate = (some f, r'))
    (links : ∀ t j, t ≠ f → link? (m'.entry t j) =
      if t = table ∧ j = i then some f else link? (m.entry t j))
    (empty : ∀ j, m'.entry f j = 0) (hB : B ∈ roots) (k : Nat) (ρ : List (Fin tableLength))
    (g : Frame) : Leads m' B k ρ g ↔ Leads m B k ρ g ∨
      (g = f ∧ k = below ∧ ∃ σ, ρ = i :: σ ∧ Leads m B (below + 1) σ table) := by
  obtain ⟨-, held, -⟩ := FrameReserve.allocate_some h.orderly taken
  refine leads_linked (fun k σ way => h.level hB hR way upper) (by rw [unused]; rfl)
    (fun k σ t way j => links t j ?_) fun j => by rw [empty]; rfl
  rintro rfl
  exact h.outside hB way held

/-- A fresh table is met by the ways that meet in the table above. -/
theorem meet_fresh (h : Housed roots r m) {R' : Frame} (hR : R ∈ roots) (hR' : R' ∈ roots)
    (held : r.Holds f)
    (leads : ∀ B ∈ roots, ∀ k ρ g, Leads m' B k ρ g ↔ Leads m B k ρ g ∨
      (g = f ∧ k = below ∧ ∃ σ, ρ = i :: σ ∧ Leads m B (below + 1) σ table)) :
    Meet m' R R' ρ ↔ Meet m R R' ρ ∨ ∃ σ, ρ = i :: σ ∧ Leads m R (below + 1) σ table ∧
      Leads m R' (below + 1) σ table := by
  constructor
  · rintro ⟨k, g, way, way'⟩
    obtain old | ⟨rfl, -, σ, rfl, upper⟩ := (leads R hR ..).mp way
    · obtain old' | ⟨rfl, -⟩ := (leads R' hR' ..).mp way'
      · exact .inl ⟨k, g, old, old'⟩
      · exact absurd held (h.outside hR old)
    · obtain old' | ⟨-, -, σ', here, upper'⟩ := (leads R' hR' ..).mp way'
      · exact absurd held (h.outside hR' old')
      · obtain rfl := (List.cons.inj here).2
        exact .inr ⟨σ, rfl, upper, upper'⟩
  · rintro (⟨k, g, way, way'⟩ | ⟨σ, rfl, upper, upper'⟩)
    · exact ⟨k, g, (leads R hR ..).mpr (.inl way), (leads R' hR' ..).mpr (.inl way')⟩
    · exact ⟨below, f, (leads R hR ..).mpr (.inr ⟨rfl, rfl, σ, rfl, upper⟩),
        (leads R' hR' ..).mpr (.inr ⟨rfl, rfl, σ, rfl, upper'⟩)⟩

/-- An unused entry gets a fresh table. -/
theorem fresh (h : Housed roots r m) (taken : r.allocate = (some f, r'))
    (leads : ∀ B ∈ roots, ∀ k ρ g, Leads m' B k ρ g ↔ Leads m B k ρ g ∨
      (g = f ∧ k = below ∧ ∃ σ, ρ = i :: σ ∧ Leads m B (below + 1) σ table)) :
    Housed roots r' m' := by
  obtain ⟨orderly, held, gone, fewer⟩ := FrameReserve.allocate_some h.orderly taken
  refine ⟨orderly, fun hR way => ?_, fun hR hR' way way' => ?_, fun hR hR' meet => ?_⟩
  · obtain old | ⟨rfl, -⟩ := (leads _ hR ..).mp way
    · exact fun own => h.outside hR old (fewer _ own)
    · exact gone
  · obtain old | ⟨rfl, rfl, -⟩ := (leads _ hR ..).mp way
    · obtain old' | ⟨rfl, -⟩ := (leads _ hR' ..).mp way'
      · exact h.level hR hR' old old'
      · exact absurd held (h.outside hR old)
    · obtain old' | ⟨-, rfl, -⟩ := (leads _ hR' ..).mp way'
      · exact absurd held (h.outside hR' old')
      · rfl
  · refine (h.meet_fresh hR hR' held leads).mpr (.inl ?_)
    obtain old | ⟨σ, here, upper, upper'⟩ := (h.meet_fresh hR hR' held leads).mp meet
    · exact h.branch hR hR' old
    · obtain ⟨-, rfl⟩ := List.cons.inj here
      exact ⟨below + 1, table, upper, upper'⟩

theorem enter (h : Housed roots r m) (hR : R ∈ roots)
    (upper : Leads m R (below + 1) (wayTo page (below + 1)) table) {answer : Except MapError Frame}
    (run : enter (mappingFlags user) table (index page (below + 1)) m r = (answer, m', r')) :
    Housed roots r' m' ∧ Apart roots R page m m' ∧
      ∀ B ∈ roots, ∀ k π f, Leads m B k π f → Leads m' B k π f := by
  have entries (t : Frame) (j : Fin tableLength) (outside : ¬ r.Holds t)
      (other : t = table → j ≠ index page (below + 1)) : m'.entry t j = m.entry t j :=
    entry_enter_other h.orderly run outside other
  obtain ⟨rfl, links⟩ | ⟨f, unused, taken, -, links, empty⟩ :=
    enter_links h.orderly (h.outside hR upper) run
  · have same (B : Frame) (_ : B ∈ roots) (k : Nat) (π : List (Fin tableLength)) (f : Frame) :
        Leads m' B k π f ↔ Leads m B k π f := leads_congr fun _ _ _ _ _ => links ..
    exact ⟨h.congr same, h.apart_of_same hR same upper entries,
      fun B hB k π f => (same B hB k π f).mpr⟩
  · have leads (B : Frame) (hB : B ∈ roots) :=
      h.leads_fresh hR upper unused taken links empty hB
    obtain ⟨-, held, -⟩ := FrameReserve.allocate_some h.orderly taken
    refine ⟨h.fresh taken leads, ⟨fun A hA B hB ne j => ?_, fun B hB ne unmet a ha => ?_⟩,
      fun B hB k π f way => (leads B hB ..).mpr (.inl way)⟩
    · -- The fresh table is a top-level one only of the space whose root it hangs on.
      refine (h.meet_fresh hA hB held leads).trans (or_iff_left ?_)
      rintro ⟨σ, here, way, way'⟩
      obtain ⟨-, rfl⟩ := List.cons.inj here
      exact ne ((way.unique .root).symm.trans (way'.unique .root))
    · exact h.translate_elsewhere hR hB ne unmet upper entries ha

/-- An entry of the last level is on no way. -/
theorem set_last (h : Housed roots r m) (hR : R ∈ roots)
    (last : Leads m R 0 (wayTo page 0) table) (e : UInt64) :
    Housed roots r (m.set table (index page 0) e) ∧
      Apart roots R page m (m.set table (index page 0) e) := by
  have same (B : Frame) (hB : B ∈ roots) (k : Nat) (π : List (Fin tableLength)) (f : Frame) :
      Leads (m.set table (index page 0) e) B k π f ↔ Leads m B k π f := by
    refine leads_congr fun k π t way j => ?_
    rw [entry_set, if_neg]
    rintro ⟨rfl, -⟩
    exact absurd (h.level hB hR way last) (Nat.succ_ne_zero k)
  refine ⟨h.congr same, h.apart_of_same hR same last fun t j _ other => ?_⟩
  rw [entry_set, if_neg fun here => other here.1 here.2]

theorem mapBelow (h : Housed roots r m) (hR : R ∈ roots)
    (upper : Leads m R below (wayTo page below) table) {answer : Except MapError Unit}
    (run : mapBelow page frame (mappingFlags user) below table m r = (answer, m', r')) :
    Housed roots r' m' ∧ Apart roots R page m m' := by
  induction below generalizing table m r with
  | zero =>
    rw [PageTable.mapBelow] at run
    split at run
    · obtain ⟨-, rfl, rfl⟩ : _ ∧ _ ∧ _ := by simpa using run
      exact ⟨h, .refl⟩
    · obtain ⟨-, rfl, rfl⟩ : _ ∧ _ ∧ _ := by simpa using run
      exact h.set_last hR upper _
  | succ below ih =>
    obtain ⟨f, m₁, r₁, entered, rest⟩ | ⟨e, entered, -⟩ := mapBelow_succ_cases run
    · obtain ⟨h₁, apart, grown⟩ := h.enter hR upper entered
      have link := link?_enter_of_outside h.orderly (h.outside hR upper) entered
      obtain ⟨h', apart'⟩ := ih h₁ ((grown R hR _ _ _ upper).next_way link) rest
      exact ⟨h', apart.trans hR apart'⟩
    · obtain ⟨h', apart, -⟩ := h.enter hR upper entered
      exact ⟨h', apart⟩

/-- Mapping a page changes no table above the one that it starts from. -/
theorem entry_mapBelow (h : Housed roots r m) (hR : R ∈ roots) (hB : B ∈ roots)
    (upper : Leads m R below (wayTo page below) table) (way : Leads m B k π t) (higher : below < k)
    {answer : Except MapError Unit}
    (run : PageTable.mapBelow page frame (mappingFlags user) below table m r = (answer, m', r'))
    (j : Fin tableLength) : m'.entry t j = m.entry t j := by
  induction below generalizing table m r with
  | zero =>
    rw [PageTable.mapBelow] at run
    split at run
    · obtain ⟨-, rfl, -⟩ : _ ∧ _ ∧ _ := by simpa using run
      rfl
    · obtain ⟨-, rfl, -⟩ : _ ∧ _ ∧ _ := by simpa using run
      rw [entry_set, if_neg]
      rintro ⟨rfl, -⟩
      exact absurd (h.level hB hR way upper) (Nat.ne_of_gt higher)
  | succ below ih =>
    have other (same : t = table) : j ≠ index page (below + 1) :=
      absurd (h.level hB hR way (same ▸ upper)) (Nat.ne_of_gt higher)
    obtain ⟨f, m₁, r₁, entered, rest⟩ | ⟨e, entered, -⟩ := mapBelow_succ_cases run
    · obtain ⟨h₁, -, grown⟩ := h.enter hR upper entered
      have link := link?_enter_of_outside h.orderly (h.outside hR upper) entered
      exact (ih h₁ ((grown R hR _ _ _ upper).next_way link) (grown B hB _ _ _ way) (by omega)
        rest).trans (entry_enter_other h.orderly entered (h.outside hB way) other)
    · exact entry_enter_other h.orderly entered (h.outside hB way) other

/-- A page that has been mapped is found at an entry that leads to its frame. -/
theorem lastTable?_mapBelow (h : Housed roots r m) (hR : R ∈ roots)
    (upper : Leads m R below (wayTo page below) table)
    (run : PageTable.mapBelow page frame (mappingFlags user) below table m r = (.ok (), m', r')) :
    ∃ last, lastTable? m' page below table = some last ∧
      m'.entry last (index page 0) = entryFor frame (mappingFlags user) := by
  induction below generalizing table m r with
  | zero =>
    obtain ⟨-, rfl, -⟩ := mapBelow_zero_ok run
    exact ⟨table, rfl, PhysicalMemory.entry_set_self ..⟩
  | succ below ih =>
    obtain ⟨f, m₁, r₁, entered, rest⟩ := mapBelow_succ_ok run
    obtain ⟨h₁, -, grown⟩ := h.enter hR upper entered
    have link := link?_enter_of_outside h.orderly (h.outside hR upper) entered
    have present := isPresent_enter h.orderly (h.outside hR upper) entered
    have next := (grown R hR _ _ _ upper).next_way link
    obtain ⟨last, found, leads⟩ := ih h₁ next rest
    refine ⟨last, ?_, leads⟩
    have same := h₁.entry_mapBelow hR hR next (grown R hR _ _ _ upper) (Nat.lt_succ_self below) rest
    rw [lastTable?, same, next?_eq_link? present, link]
    exact found

/-- A page that has been mapped is found at its frame. -/
theorem translate_mapBelow (h : Housed roots r m) (hR : R ∈ roots)
    (small : frame.start < physicalLimit) (upper : Leads m R below (wayTo (.containing a) below) table)
    (run : PageTable.mapBelow (.containing a) frame (mappingFlags user) below table m r =
      (.ok (), m', r')) : translateBelow m' a below table = some (frame.start + a % pageSize) := by
  obtain ⟨last, found, leads⟩ := h.lastTable?_mapBelow hR upper run
  have present : isPresent (entryFor frame (mappingFlags user)) := isPresent_or_mappingFlags _ user
  rw [translateBelow_of_lastTable? found (leads ▸ present), leads, physical_zero,
    frameOf_entryFor_mappingFlags user small]

theorem unmap (h : Housed roots r m) (hR : R ∈ roots) (page : Page) :
    Housed roots r (unmap R page m).2 ∧ Apart roots R page m (unmap R page m).2 := by
  rw [PageTable.unmap]
  split
  · exact ⟨h, .refl⟩
  · rename_i last found
    split
    · exact ⟨h, .refl⟩
    · exact h.set_last hR (leads_of_lastTable? .root found) 0

/-- From a new root the ways lead where they lead from the root that it was copied from. -/
theorem leads_copied (h : Housed roots r m) (hR : R ∈ roots) (held : r.Holds f)
    (entries : ∀ t j, m'.entry t j = if t = f then m.entry R j else m.entry t j) :
    Leads m' f k (i :: π) g ↔ Leads m R k (i :: π) g := by
  induction π generalizing k i g with
  | nil => rw [leads_top, leads_top, entries, if_pos rfl]
  | cons j π ih =>
    constructor
    · intro way
      obtain ⟨t, upper, link⟩ := way.inv
      have before := ih.mp upper
      rw [entries, if_neg fun same : t = f => h.outside hR before (same ▸ held)] at link
      exact before.next link
    · intro way
      obtain ⟨t, upper, link⟩ := way.inv
      refine (ih.mpr upper).next ?_
      rwa [entries, if_neg fun same : t = f => h.outside hR upper (same ▸ held)]

/-- A root that a frame of the reserve becomes does not show from the other roots. -/
theorem leads_beside (h : Housed roots r m) (hB : B ∈ roots) (held : r.Holds f)
    (entries : ∀ t j, m'.entry t j = if t = f then m.entry R j else m.entry t j) :
    Leads m' B k π g ↔ Leads m B k π g :=
  leads_congr fun k ρ t way j => by
    rw [entries, if_neg fun same : t = f => h.outside hB way (same ▸ held)]

/-- A frame of the reserve becomes a root with the entries of another one. -/
theorem found (h : Housed roots r m) (hR : R ∈ roots) (taken : r.allocate = (some f, r'))
    (entries : ∀ t j, m'.entry t j = if t = f then m.entry R j else m.entry t j) :
    Housed (f :: roots) r' m' := by
  obtain ⟨orderly, held, gone, fewer⟩ := FrameReserve.allocate_some h.orderly taken
  have origin {X : Frame} (hX : X ∈ f :: roots) : ∃ o ∈ roots, ∀ k i π g,
      Leads m' X k (i :: π) g ↔ Leads m o k (i :: π) g := by
    obtain rfl | hX := List.mem_cons.mp hX
    · exact ⟨R, hR, fun _ _ _ _ => h.leads_copied hR held entries⟩
    · exact ⟨X, hX, fun _ _ _ _ => h.leads_beside hX held entries⟩
  have lower {X Y g : Frame} {j k : Nat} {i : Fin tableLength} {π : List (Fin tableLength)}
      (hX : X ∈ f :: roots) (hY : Y ∈ f :: roots) (way : Leads m' X j [] g)
      (way' : Leads m' Y k (i :: π) g) : j = k := by
    obtain ⟨o, ho, same⟩ := origin hY
    have way' := (same ..).mp way'
    have top : j = depth := by simpa using way.length
    obtain rfl := way.unique .root
    obtain rfl | hX := List.mem_cons.mp hX
    · exact absurd held (h.outside ho way')
    · exact top.trans (h.level hX ho .root way')
  refine ⟨orderly, fun {X k π g} hX way => ?_, fun {X Y j k π ρ g} hX hY way way' => ?_,
    fun {X Y i j π} hX hY meet => ?_⟩
  · cases π with
    | nil =>
      obtain rfl := way.unique .root
      obtain rfl | hX := List.mem_cons.mp hX
      · exact gone
      · exact fun own => h.outside hX .root (fewer _ own)
    | cons i π =>
      obtain ⟨o, ho, same⟩ := origin hX
      exact fun own => h.outside ho ((same ..).mp way) (fewer _ own)
  · cases π with
    | nil =>
      cases ρ with
      | nil =>
        have := way.length
        have := way'.length
        omega
      | cons i ρ => exact lower hX hY way way'
    | cons i π =>
      cases ρ with
      | nil => exact (lower hY hX way' way).symm
      | cons i' ρ =>
        obtain ⟨o, ho, same⟩ := origin hX
        obtain ⟨o', ho', same'⟩ := origin hY
        exact h.level ho ho' ((same ..).mp way) ((same' ..).mp way')
  · obtain ⟨o, ho, same⟩ := origin hX
    obtain ⟨o', ho', same'⟩ := origin hY
    exact (meet_congr (fun _ _ => same ..) fun _ _ => same' ..).mpr
      (h.branch ho ho' ((meet_congr (fun _ _ => same ..) fun _ _ => same' ..).mp meet))

end Housed
end PageTable

/-- How a space has come about. -/
structure SpaceBirth where
  space : AddressSpace
  /-- The space that was active. -/
  parent : AddressSpace
  /-- The top-level entries of the parent that led to a table. -/
  inherits : Fin tableLength → Bool

/-- The space that made the tables below a top-level entry of a space. The last birth comes first. -/
def founder (i : Fin tableLength) : List SpaceBirth → AddressSpace → AddressSpace
  | [], space => space
  | birth :: births, space =>
    if space = birth.space then
      if birth.inherits i then founder i births birth.parent else space
    else founder i births space

theorem founder_self (i : Fin tableLength) (birth : SpaceBirth) (births : List SpaceBirth) :
    founder i (birth :: births) birth.space =
      if birth.inherits i then founder i births birth.parent else birth.space :=
  if_pos rfl

theorem founder_of_ne (i : Fin tableLength) {birth : SpaceBirth} (births : List SpaceBirth)
    {space : AddressSpace} (ne : space ≠ birth.space) :
    founder i (birth :: births) space = founder i births space :=
  if_neg ne

namespace PagingMachine

open PageTable

/-- The spaces that there are after these births. -/
def spaces (m : PagingMachine) (births : List SpaceBirth) : List AddressSpace :=
  births.map SpaceBirth.space ++ [activeSpace m]

/-- A space that comes about now, as a child of the active one. -/
def birth (u : PagingMachine) (space : AddressSpace) : SpaceBirth where
  space := space
  parent := activeSpace u
  inherits i := (link? (u.tables.entry u.root i)).isSome

theorem birth_space (u : PagingMachine) (space : AddressSpace) : (u.birth space).space = space :=
  rfl

/-- Spaces are created and made active, and pages are mapped and taken out through any of them. -/
inductive SpaceRun (m : PagingMachine) : List SpaceBirth → PagingMachine → Prop where
  | start : SpaceRun m [] m
  | create {births u space v} (run : SpaceRun m births u) (call : createSpace u = (.ok space, v)) :
      SpaceRun m (u.birth space :: births) v
  | refuse {births u e v} (run : SpaceRun m births u) (call : createSpace u = (.error e, v)) :
      SpaceRun m births v
  | switch {births u space} (run : SpaceRun m births u) (known : space ∈ m.spaces births) :
      SpaceRun m births (activate space u)
  | map {births u space page frame user answer v} (run : SpaceRun m births u)
      (known : space ∈ m.spaces births) (call : mapPage space page frame user u = (answer, v)) :
      SpaceRun m births v
  | unmap {births u space page answer v} (run : SpaceRun m births u)
      (known : space ∈ m.spaces births) (call : unmapPage space page u = (answer, v)) :
      SpaceRun m births v

/-- The spaces of a run lie beside each other, and two of them share the top-level tables that they
have from the same space. -/
structure Arranged (m : PagingMachine) (births : List SpaceBirth) (u : PagingMachine) : Prop where
  housed : Housed ((m.spaces births).map rootOf) u.reserve u.tables
  active : activeSpace u ∈ m.spaces births
  named : ∀ space ∈ m.spaces births, spaceOf (rootOf space) = space
  founded : ∀ space ∈ m.spaces births, ∀ i, founder i births space ∈ m.spaces births
  meets : ∀ S ∈ m.spaces births, ∀ T ∈ m.spaces births, S ≠ T → ∀ i,
    Meet u.tables (rootOf S) (rootOf T) [i] ↔ founder i births S = founder i births T

variable {m u v : PagingMachine} {births : List SpaceBirth} {S T space : AddressSpace} {page : Page}
  {frame : Frame} {user : Bool}

/-- Creating a space takes a frame, which is the root table of the space. -/
theorem allocate_of_createSpace (h : createSpace u = (.ok space, v)) :
    ∃ f, u.reserve.allocate = (some f, v.reserve) ∧ space = spaceOf f ∧
      v = { u with
        tables := (u.tables.clearTable f).copyUsed u.root f
        reserve := v.reserve } := by
  change u.newSpace = _ at h
  unfold newSpace takeFrame at h
  rcases allocated : u.reserve.allocate with ⟨_ | f, reserve⟩
  · rw [allocated] at h
    exact absurd (congrArg Prod.fst h) nofun
  · rw [allocated] at h
    obtain ⟨here, rfl⟩ := Prod.mk.inj h
    obtain rfl := Except.ok.inj here
    exact ⟨f, rfl, rfl, rfl⟩

/-- The entries of the active root table are copied into that of a new space. -/
theorem createSpace_ok (orderly : u.reserve.Orderly) (outside : ¬ u.reserve.Holds u.root)
    (h : createSpace u = (.ok space, v)) : ∃ f, u.reserve.allocate = (some f, v.reserve) ∧
      space = spaceOf f ∧ v.root = u.root ∧ ∀ t j, v.tables.entry t j =
        if t = f then u.tables.entry u.root j else u.tables.entry t j := by
  obtain ⟨f, allocated, rfl, made⟩ := allocate_of_createSpace h
  obtain ⟨-, held, -⟩ := FrameReserve.allocate_some orderly allocated
  have other : u.root ≠ f := fun same => outside (same ▸ held)
  refine ⟨f, allocated, rfl, by rw [made], fun t j => ?_⟩
  rw [made]
  exact u.tables.entry_copyUsed_clearTable other t j

theorem createSpace_error {e : MapError} (h : createSpace u = (.error e, v)) : v = u := by
  change u.newSpace = _ at h
  unfold newSpace takeFrame at h
  rcases allocated : u.reserve.allocate with ⟨_ | f, reserve⟩
  · rw [allocated] at h
    rw [← (Prod.mk.inj h).2, FrameReserve.allocate_none allocated]
  · rw [allocated] at h
    exact absurd (congrArg Prod.fst h) nofun

/-- One space lies beside no other. -/
theorem Sound.housed (sound : m.Sound space) (level : m.Levelled space) :
    Housed [rootOf space] m.reserve m.tables := by
  have only {R : Frame} (hR : R ∈ [rootOf space]) : R = rootOf space := List.mem_singleton.mp hR
  refine ⟨sound.orderly, fun hR way => ?_, fun hR hR' way way' => ?_, fun hR hR' meet => ?_⟩
  · obtain rfl := only hR
    exact sound.outside way.isTable
  · obtain rfl := only hR
    obtain rfl := only hR'
    exact level way.isTable way'.isTable
  · obtain rfl := only hR
    obtain rfl := only hR'
    obtain ⟨k, f, way, -⟩ := meet
    obtain ⟨table, upper, -⟩ := way.inv
    exact ⟨k + 1, table, upper, upper⟩

namespace Arranged

theorem rootOf_mem (known : space ∈ m.spaces births) :
    rootOf space ∈ (m.spaces births).map rootOf := List.mem_map_of_mem known

theorem rootOf_ne (a : Arranged m births u) (hS : S ∈ m.spaces births) (hT : T ∈ m.spaces births)
    (ne : S ≠ T) : rootOf S ≠ rootOf T := fun same =>
  ne ((a.named S hS).symm.trans ((congrArg spaceOf same).trans (a.named T hT)))

/-- A change to the tables that leaves alone what it should. -/
theorem change (a : Arranged m births u) (active : v.root = u.root)
    (housed : Housed ((m.spaces births).map rootOf) v.reserve v.tables)
    (apart : Apart ((m.spaces births).map rootOf) (rootOf space) page u.tables v.tables) :
    Arranged m births v where
  housed := housed
  active := by
    change spaceOf v.root ∈ m.spaces births
    rw [active]
    exact a.active
  named := a.named
  founded := a.founded
  meets S hS T hT ne i := (apart.meets _ (rootOf_mem hS) _ (rootOf_mem hT) (a.rootOf_ne hS hT ne)
    i).trans (a.meets S hS T hT ne i)

theorem map (a : Arranged m births u) (known : space ∈ m.spaces births)
    {answer : Except MapError Unit} (call : mapPage space page frame user u = (answer, v)) :
    Arranged m births v ∧
      Apart ((m.spaces births).map rootOf) (rootOf space) page u.tables v.tables := by
  obtain ⟨run, same⟩ := map_of_mapPage call
  obtain ⟨housed, apart⟩ := a.housed.mapBelow (rootOf_mem known) .root run
  exact ⟨a.change same housed apart, apart⟩

theorem unmap (a : Arranged m births u) (known : space ∈ m.spaces births) {answer : Option Frame}
    (call : unmapPage space page u = (answer, v)) : Arranged m births v ∧
      Apart ((m.spaces births).map rootOf) (rootOf space) page u.tables v.tables := by
  obtain ⟨-, rfl⟩ : _ ∧ (unmapPage space page u).2 = v := Prod.mk.inj call
  obtain ⟨housed, apart⟩ := a.housed.unmap (rootOf_mem known) page
  exact ⟨a.change rfl housed apart, apart⟩

/-- A new space shares the top-level tables of the active one, and with every other space those that
the active one shares with it. -/
theorem meet_create (a : Arranged m births u) {f : Frame} (held : u.reserve.Holds f)
    (entries : ∀ t j, v.tables.entry t j =
      if t = f then u.tables.entry u.root j else u.tables.entry t j)
    (hT : T ∈ m.spaces births) (i : Fin tableLength) :
    Meet v.tables f (rootOf T) [i] ↔
      (link? (u.tables.entry u.root i)).isSome ∧
        founder i births (activeSpace u) = founder i births T := by
  have active := rootOf_mem a.active
  have root : rootOf (activeSpace u) = u.root := rootOf_spaceOf u.root
  rw [root] at active
  refine (meet_congr (fun _ _ => a.housed.leads_copied active held entries)
    fun _ _ => a.housed.leads_beside (rootOf_mem hT) held entries).trans ?_
  by_cases same : activeSpace u = T
  · subst same
    rw [meet_top, root, Option.isSome_iff_exists]
    simp
  · rw [← a.meets _ a.active T hT same i, root, meet_top, Option.isSome_iff_exists]
    constructor
    · rintro ⟨g, link, link'⟩
      exact ⟨⟨g, link⟩, g, link, link'⟩
    · exact fun h => h.2

theorem create (a : Arranged m births u) (call : createSpace u = (.ok space, v)) :
    Arranged m (u.birth space :: births) v := by
  have active := rootOf_mem a.active
  have root : rootOf (activeSpace u) = u.root := rootOf_spaceOf u.root
  rw [root] at active
  obtain ⟨f, taken, rfl, stays, entries⟩ :=
    createSpace_ok a.housed.orderly (a.housed.outside active .root) call
  obtain ⟨-, held, -⟩ := FrameReserve.allocate_some a.housed.orderly taken
  have fresh : spaceOf f ∉ m.spaces births := by
    intro old
    have outside := a.housed.outside (rootOf_mem old) .root
    rw [rootOf_spaceOf] at outside
    exact outside held
  have old_ne {T : AddressSpace} (hT : T ∈ m.spaces births) : T ≠ spaceOf f :=
    fun same => fresh (same ▸ hT)
  have founder_old {T : AddressSpace} (hT : T ∈ m.spaces births) (i : Fin tableLength) :
      founder i (u.birth (spaceOf f) :: births) T = founder i births T :=
    founder_of_ne i births (old_ne hT)
  have founder_new (i : Fin tableLength) : founder i (u.birth (spaceOf f) :: births) (spaceOf f) =
      if (link? (u.tables.entry u.root i)).isSome then founder i births (activeSpace u)
        else spaceOf f :=
    founder_self i (u.birth (spaceOf f)) births
  have meet_new {T : AddressSpace} (hT : T ∈ m.spaces births) (i : Fin tableLength) :
      Meet v.tables f (rootOf T) [i] ↔
        founder i (u.birth (spaceOf f) :: births) (spaceOf f) = founder i births T := by
    rw [a.meet_create held entries hT, founder_new]
    by_cases inherited : (link? (u.tables.entry u.root i)).isSome
    · rw [if_pos inherited]
      exact and_iff_right inherited
    · rw [if_neg inherited]
      exact iff_of_false (fun h => inherited h.1) (old_ne (a.founded T hT i)).symm
  refine ⟨?_, ?_, ?_, ?_, ?_⟩
  · have housed := a.housed.found active taken entries
    rw [← rootOf_spaceOf f] at housed
    exact housed
  · change spaceOf v.root ∈ _
    rw [stays]
    exact List.mem_cons_of_mem _ a.active
  · exact List.forall_mem_cons.mpr ⟨congrArg spaceOf (rootOf_spaceOf f), a.named⟩
  · refine List.forall_mem_cons.mpr ⟨fun i => ?_, fun T hT i => ?_⟩
    · rw [birth_space, founder_new]
      split
      · exact List.mem_cons_of_mem _ (a.founded _ a.active i)
      · exact List.mem_cons_self ..
    · rw [founder_old hT]
      exact List.mem_cons_of_mem _ (a.founded T hT i)
  · refine List.forall_mem_cons.mpr ⟨?_, fun S hS => ?_⟩
    · refine List.forall_mem_cons.mpr ⟨fun ne => absurd rfl ne, fun T hT _ i => ?_⟩
      rw [birth_space, rootOf_spaceOf, founder_old hT, meet_new hT]
    · refine List.forall_mem_cons.mpr ⟨fun _ i => ?_, fun T hT ne i => ?_⟩
      · rw [birth_space, rootOf_spaceOf, founder_old hS, eq_comm, ← meet_new hS]
        exact ⟨fun ⟨k, g, h, h'⟩ => ⟨k, g, h', h⟩, fun ⟨k, g, h, h'⟩ => ⟨k, g, h', h⟩⟩
      · rw [founder_old hS, founder_old hT, ← a.meets S hS T hT ne i]
        exact meet_congr (fun _ _ => a.housed.leads_beside (rootOf_mem hS) held entries)
          fun _ _ => a.housed.leads_beside (rootOf_mem hT) held entries

/-- The spaces of a machine of one space. -/
theorem start (sound : m.Sound (activeSpace m)) (level : m.Levelled (activeSpace m)) :
    Arranged m [] m where
  housed := sound.housed level
  active := List.mem_singleton.mpr rfl
  named space known := by
    obtain rfl := List.mem_singleton.mp known
    exact congrArg spaceOf (rootOf_spaceOf m.root)
  founded _ known _ := known
  meets _ hS _ hT ne :=
    absurd ((List.mem_singleton.mp hS).trans (List.mem_singleton.mp hT).symm) ne

end Arranged

theorem SpaceRun.arranged (run : SpaceRun m births u) (sound : m.Sound (activeSpace m))
    (level : m.Levelled (activeSpace m)) : Arranged m births u := by
  induction run with
  | start => exact .start sound level
  | create _ call ih => exact ih.create call
  | refuse _ call ih => exact createSpace_error call ▸ ih
  | switch _ known ih =>
    refine ⟨ih.housed, ?_, ih.named, ih.founded, ih.meets⟩
    change spaceOf (rootOf _) ∈ _
    rw [ih.named _ known]
    exact known
  | map _ known call ih => exact (ih.map known call).1
  | unmap _ known call ih => exact (ih.unmap known call).1

/-- Whatever is done through the first space with the page of an address, the address stays where it
is in the second. -/
def Independent (u : PagingMachine) (S T : AddressSpace) (a : Nat) : Prop :=
  (∀ frame user, (mapPage S (.containing a) frame user u).2.translate T a = u.translate T a) ∧
    (unmapPage S (.containing a) u).2.translate T a = u.translate T a

/-- The root table's entry for the page of an address. -/
def topIndex (a : Nat) : Fin tableLength := index (.containing a) depth

/-- Through two spaces with a common top-level table an address is found in one place. -/
theorem translate_of_common {a : Nat} {table : Frame}
    (linkS : link? (u.tables.entry (rootOf S) (topIndex a)) = some table)
    (linkT : link? (u.tables.entry (rootOf T) (topIndex a)) = some table)
    (presentS : isPresent (u.tables.entry (rootOf S) (topIndex a)))
    (presentT : isPresent (u.tables.entry (rootOf T) (topIndex a))) :
    u.translate S a = u.translate T a := by
  have below {R : Frame} (link : link? (u.tables.entry R (topIndex a)) = some table)
      (present : isPresent (u.tables.entry R (topIndex a))) :
      translateBelow u.tables a depth R = translateBelow u.tables a 2 table := by
    obtain ⟨-, plain, leads⟩ := link?_eq_some link
    rw [topIndex, depth] at present plain leads
    rw [depth, translateBelow, if_pos present, plain, leads]
    rfl
  exact (below linkS presentS).trans (below linkT presentT).symm

/-- Two spaces of a run have the tables for an address from different spaces, and then what is mapped
or taken out there through one of them does not show in the other; or they have them from the same
space, and then both have the same top-level table. -/
theorem spaces_independent (sound : m.Sound (activeSpace m)) (level : m.Levelled (activeSpace m))
    (run : SpaceRun m births u) (hS : S ∈ m.spaces births) (hT : T ∈ m.spaces births) (ne : S ≠ T)
    (a : Nat) :
    (founder (topIndex a) births S ≠ founder (topIndex a) births T → u.Independent S T a ∧
      ∀ frame user v, frame.start < physicalLimit →
        mapPage S (.containing a) frame user u = (.ok (), v) →
          v.translate S a = some (frame.start + a % pageSize)) ∧
    (founder (topIndex a) births S = founder (topIndex a) births T →
      (∃ table, link? (u.tables.entry (rootOf S) (topIndex a)) = some table ∧
        link? (u.tables.entry (rootOf T) (topIndex a)) = some table) ∧
      (isPresent (u.tables.entry (rootOf S) (topIndex a)) →
        isPresent (u.tables.entry (rootOf T) (topIndex a)) →
          u.translate S a = u.translate T a)) := by
  have arranged := run.arranged sound level
  have rootT := Arranged.rootOf_mem hT
  have meets := arranged.meets S hS T hT ne (topIndex a)
  refine ⟨fun apart => ?_, fun same => ?_⟩
  · have unmet := fun meet => apart (meets.mp meet)
    refine ⟨⟨fun frame user => ?_, ?_⟩, fun frame user v small call => ?_⟩
    · obtain ⟨-, kept⟩ := arranged.map hS (Prod.ext rfl rfl)
      exact kept.elsewhere _ rootT (arranged.rootOf_ne hS hT ne) unmet a rfl
    · obtain ⟨-, kept⟩ := arranged.unmap hS (Prod.ext rfl rfl)
      exact kept.elsewhere _ rootT (arranged.rootOf_ne hS hT ne) unmet a rfl
    · obtain ⟨mapped, -⟩ := map_of_mapPage call
      exact arranged.housed.translate_mapBelow (Arranged.rootOf_mem hS) small .root mapped
  · obtain ⟨table, linkS, linkT⟩ := meet_top.mp (meets.mpr same)
    exact ⟨⟨table, linkS, linkT⟩, translate_of_common linkS linkT⟩

/-- Where no entry is in use there is no table but the root. -/
theorem table_of_zeros {k : Nat} {root f : Frame} (h : Table .zeros root k f) :
    f = root ∧ k = depth := by
  induction h with
  | root => exact ⟨rfl, rfl⟩
  | next _ link _ => exact absurd link nofun

theorem sound_of_zeros (zeros : m.tables = .zeros) (none : m.reserve.recycled = [])
    (high : m.reserve.limit ≤ physicalLimit) (low : (rootOf space).start < m.reserve.next) :
    m.Sound space where
  orderly := by
    refine ⟨none ▸ List.nodup_nil, fun f old => absurd (none ▸ old) List.not_mem_nil, ?_⟩
    rintro f (old | ⟨-, below⟩)
    · exact absurd (none ▸ old) List.not_mem_nil
    · omega
  outside table := by
    rw [zeros] at table
    obtain ⟨rfl, -⟩ := table_of_zeros table
    rintro (old | ⟨above, -⟩)
    · exact absurd (none ▸ old) List.not_mem_nil
    · omega

theorem levelled_of_zeros (zeros : m.tables = .zeros) : m.Levelled space := by
  rw [Levelled, zeros]
  exact fun a b => (table_of_zeros a).2.trans (table_of_zeros b).2.symm

/-- A machine with nothing mapped. -/
def bare : PagingMachine where
  reserve := { next := 0x1000000, limit := 0x2000000 }

/-- One page has been mapped, and then a second space created. -/
def oneMapped : PagingMachine := (mapPage ⟨0x1000⟩ ⟨0x400⟩ ⟨0x2000⟩ true bare).2

def twoSpaces : PagingMachine := (createSpace oneMapped).2

/-- The birth of the second space. -/
def secondBirth : SpaceBirth := oneMapped.birth ⟨0x1003000⟩

theorem spaceRun_twoSpaces : SpaceRun bare [secondBirth] twoSpaces := by
  have created : (createSpace oneMapped).1 = .ok ⟨0x1003000⟩ := by decide +kernel
  exact (SpaceRun.start.map (by decide) (Prod.ext rfl rfl)).create (Prod.ext created rfl)

theorem first_known : (⟨0x1000⟩ : AddressSpace) ∈ bare.spaces [secondBirth] :=
  List.mem_cons_of_mem _ (List.mem_singleton.mpr rfl)

theorem second_known : (⟨0x1003000⟩ : AddressSpace) ∈ bare.spaces [secondBirth] :=
  List.mem_cons_self ..

theorem sound_bare : bare.Sound (activeSpace bare) :=
  sound_of_zeros rfl rfl (by decide) (by decide)

theorem levelled_bare : bare.Levelled (activeSpace bare) := levelled_of_zeros rfl

/-- Far from the first page another one has been mapped in the second space. -/
def secondMapped : PagingMachine :=
  (mapPage ⟨0x1003000⟩ (.containing 0x8000000abc) ⟨0x2001⟩ true twoSpaces).2

/-- The same page has been mapped in the first space. -/
def bothMapped : PagingMachine :=
  (mapPage ⟨0x1000⟩ (.containing 0x8000000abc) ⟨0x2002⟩ true secondMapped).2

theorem spaces_independent_far : bothMapped.translate ⟨0x1000⟩ 0x8000000abc = some 0x2002abc ∧
    bothMapped.translate ⟨0x1003000⟩ 0x8000000abc = some 0x2001abc := by
  have call : mapPage ⟨0x1003000⟩ (.containing 0x8000000abc) ⟨0x2001⟩ true twoSpaces =
    (_, secondMapped) := Prod.ext rfl rfl
  have run := spaceRun_twoSpaces.map second_known call
  obtain ⟨independent, -⟩ := spaces_independent sound_bare levelled_bare run first_known
    second_known (by decide) 0x8000000abc
  obtain ⟨⟨mapped, -⟩, placed⟩ := independent (by decide +kernel)
  have ready : (mapPage ⟨0x1000⟩ (.containing 0x8000000abc) ⟨0x2002⟩ true secondMapped).1 =
    .ok () := by decide +kernel
  have before : secondMapped.translate ⟨0x1003000⟩ 0x8000000abc = some 0x2001abc := by
    decide +kernel
  have address : (⟨0x2002⟩ : Frame).start + 0x8000000abc % pageSize = 0x2002abc := by
    simp [Frame.start, pageSize]
  have found := placed ⟨0x2002⟩ true bothMapped (by decide) (Prod.ext ready rfl)
  rw [address] at found
  exact ⟨found, (mapped ⟨0x2002⟩ true).trans before⟩

/-- Beside the page that was mapped, what is mapped through one space shows in the other. -/
theorem shared_tables_show : bare.Sound (activeSpace bare) ∧ bare.Levelled (activeSpace bare) ∧
    SpaceRun bare [secondBirth] twoSpaces ∧
    (⟨0x1000⟩ : AddressSpace) ∈ bare.spaces [secondBirth] ∧
    (⟨0x1003000⟩ : AddressSpace) ∈ bare.spaces [secondBirth] ∧ 0x401000 < userSpaceEnd ∧
    ¬ twoSpaces.Independent ⟨0x1000⟩ ⟨0x1003000⟩ 0x401000 := by
  refine ⟨sound_bare, levelled_bare, spaceRun_twoSpaces, first_known, second_known, by decide,
    fun independent => ?_⟩
  have same := independent.1 ⟨0x2001⟩ true
  have before : twoSpaces.translate ⟨0x1003000⟩ 0x401000 = none := by decide +kernel
  have after : (mapPage ⟨0x1000⟩ (.containing 0x401000) ⟨0x2001⟩ true twoSpaces).2.translate
      ⟨0x1003000⟩ 0x401000 = some 0x2001000 := by decide +kernel
  exact absurd (after.symm.trans (same.trans before)) nofun

/-- A machine whose root table is a table of its own on every level. -/
def looped : PagingMachine where
  tables := PhysicalMemory.zeros.set ⟨1⟩ (index ⟨0x8000000⟩ 3) 0x1003
  reserve := { next := 0x1000000, limit := 0x2000000 }

/-- There is a second space, and a page has been mapped in it. -/
def secondBegun : PagingMachine :=
  (mapPage ⟨0x1000000⟩ ⟨0x400⟩ ⟨0x2000⟩ true (createSpace looped).2).2

/-- In the first space a page has been mapped to a top-level table of the second one, and this page is
the root table itself. -/
def crossed : PagingMachine := (mapPage ⟨0x1000⟩ ⟨0x8040200⟩ ⟨0x1001⟩ true secondBegun).2

/-- The birth of the second space. -/
def loopedBirth : SpaceBirth := looped.birth ⟨0x1000000⟩

theorem spaceRun_crossed : SpaceRun looped [loopedBirth] crossed := by
  have created : (createSpace looped).1 = .ok ⟨0x1000000⟩ := by decide +kernel
  have first : mapPage ⟨0x1000000⟩ ⟨0x400⟩ ⟨0x2000⟩ true (createSpace looped).2 =
    (_, secondBegun) := Prod.ext rfl rfl
  have second : mapPage ⟨0x1000⟩ ⟨0x8040200⟩ ⟨0x1001⟩ true secondBegun = (_, crossed) :=
    Prod.ext rfl rfl
  exact ((SpaceRun.start.create (Prod.ext created rfl)).map (List.mem_cons_self ..) first).map
    (List.mem_cons_of_mem _ (List.mem_singleton.mpr rfl)) second

theorem table_looped {k : Nat} {f : Frame} (h : Table looped.tables (rootOf ⟨0x1000⟩) k f) :
    f = ⟨1⟩ := by
  induction h with
  | root => rfl
  | @next _ _ _ i _ link ih =>
    have leads : link? 0x1003 = some ⟨1⟩ := by decide
    rw [ih, looped, entry_set, apply_ite link?, leads] at link
    split at link
    · exact (Option.some.inj link).symm
    · exact absurd link nofun

theorem sound_looped : looped.Sound (activeSpace looped) where
  orderly := sound_bare.orderly
  outside table := by
    obtain rfl := table_looped table
    rintro (none | ⟨low, -⟩)
    · exact absurd none List.not_mem_nil
    · exact absurd low (by decide)

/-- Where a frame is a table of two levels, a space can be reached through another one, also if they
have no table from the same space. -/
theorem crossed_levels_show : looped.Sound (activeSpace looped) ∧
    SpaceRun looped [loopedBirth] crossed ∧
    founder (topIndex 0x401000) [loopedBirth] ⟨0x1000⟩ ≠
      founder (topIndex 0x401000) [loopedBirth] ⟨0x1000000⟩ ∧
    ¬ crossed.Independent ⟨0x1000⟩ ⟨0x1000000⟩ 0x401000 := by
  refine ⟨sound_looped, spaceRun_crossed, by decide +kernel, fun independent => ?_⟩
  have same := independent.1 ⟨0x2001⟩ true
  have before : crossed.translate ⟨0x1000000⟩ 0x401000 = none := by decide +kernel
  have after : (mapPage ⟨0x1000⟩ (.containing 0x401000) ⟨0x2001⟩ true crossed).2.translate
      ⟨0x1000000⟩ 0x401000 = some 0x2001000 := by decide +kernel
  exact absurd (after.symm.trans (same.trans before)) nofun

end PagingMachine
end KernelCore
