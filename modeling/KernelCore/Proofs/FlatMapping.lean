import KernelCore.Proofs.MappedMemory
import KernelCore.Proofs.TablePaths
import Mathlib.Logic.Function.Basic

/-!
# A tree of tables as a flat map

If the tables of a space form a tree, a page has one entry of the last level, and no other page has
the same one. Preparing an entry on the way to it changes no entry of the last level that a walk
finds, since a fresh table is empty whatever the frame held before. So the space is a partial function
from pages to frames: mapping a page adds the page to it and taking one out removes that page, and no
other page is touched, also where the frames run out half way.
-/
namespace KernelCore
namespace PageTable

/-- The entry is not in use, or it leads to a frame of the ordinary size. -/
def Plain (e : UInt64) : Prop := e = 0 ∨ (isPresent e ∧ isHuge e = false)

/-- The tables of a space form a tree of plain entries, which has no frame of the reserve in it. -/
structure Tree (r : FrameReserve) (m : PhysicalMemory) (root : Frame) : Prop where
  orderly : r.Orderly
  outside : ∀ {k π f}, Leads m root k π f → ¬ r.Holds f
  once : ∀ {j k π ρ f}, Leads m root j π f → Leads m root k ρ f → π = ρ
  plain : ∀ {k π f}, Leads m root k π f → ∀ i, Plain (m.entry f i)

/-- The entry of the last level for a page, zero if the walk to the page does not get there. -/
def lastEntry (m : PhysicalMemory) (root : Frame) (page : Page) : UInt64 :=
  match lastTable? m page depth root with
  | some table => m.entry table (index page 0)
  | none => 0

variable {r r' : FrameReserve} {m m' : PhysicalMemory} {page q : Page} {below j k : Nat}
  {root table f g frame : Frame} {i : Fin tableLength} {π ρ : List (Fin tableLength)} {user : Bool}
  {e : UInt64}

theorem next?_zero : next? 0 = none := rfl

theorem isMapped_eq (m : PhysicalMemory) (root : Frame) (page : Page) :
    isMapped m root page = (lastEntry m root page != 0) := by
  unfold isMapped lastEntry
  cases lastTable? m page depth root <;> rfl

theorem unmap_fst (m : PhysicalMemory) (root : Frame) (page : Page) :
    (unmap root page m).1 = next? (lastEntry m root page) := by
  unfold unmap lastEntry
  cases lastTable? m page depth root with
  | none => exact next?_zero.symm
  | some table => cases next : next? (m.entry table (index page 0)) <;> simp only [next]

namespace Plain

theorem next?_eq (h : Plain e) : next? e = link? e := by
  obtain rfl | ⟨present, -⟩ := h
  · rfl
  · exact next?_eq_link? present

theorem link?_eq (h : Plain e) : link? e = if e = 0 then none else some (frameOf e) := by
  obtain rfl | ⟨present, small⟩ := h
  · rfl
  · rw [link?_of_isPresent present small, if_neg (ne_zero_of_isPresent present)]

theorem gains (h : Plain e) (used : e ≠ 0) {e' : UInt64} (gains : Gains e e') : Plain e' := by
  obtain zero | ⟨present, small⟩ := h
  · exact absurd zero used
  · exact .inr ⟨gains.isPresent present, gains.isHuge_eq.trans small⟩

theorem entryFor (small : f.start < physicalLimit) (user : Bool) :
    Plain (entryFor f (mappingFlags user)) :=
  .inr ⟨isPresent_or_mappingFlags _ user, (link?_eq_some (link?_entryFor small)).2.1⟩

end Plain

theorem shiftRight_index (n : Nat) : n >>> 9 = n / 512 ∧ n >>> 18 = n / 262144 ∧
    n >>> 27 = n / 134217728 :=
  ⟨Nat.shiftRight_eq_div_pow n 9, Nat.shiftRight_eq_div_pow n 18, Nat.shiftRight_eq_div_pow n 27⟩

/-- Two pages with the same indices on all four levels are one page. The numbers that differ by a
multiple of the indices' range belong to addresses that are not canonical. -/
theorem eq_of_wayTo (hp : Canonical page.start) (hq : Canonical q.start)
    (way : wayTo q 0 = wayTo page 0) (last : index q 0 = index page 0) : q = page := by
  have way' : [index q 1, index q 2, index q 3] = [index page 1, index page 2, index page 3] := way
  simp only [List.cons.injEq, and_true] at way'
  obtain ⟨first, second, third⟩ := way'
  obtain ⟨a₁, a₂, a₃⟩ := shiftRight_index q.number
  obtain ⟨b₁, b₂, b₃⟩ := shiftRight_index page.number
  simp only [index, indexBits, tableLength, Fin.mk.injEq, Nat.reduceMul, Nat.shiftRight_zero,
    a₁, a₂, a₃, b₁, b₂, b₃] at first second third last
  simp only [Canonical, Page.start, pageSize, userSpaceEnd, wordLimit] at hp hq
  cases page
  cases q
  simp only [Page.mk.injEq] at *
  omega

namespace Leads

/-- A way that gets to a level passes all levels above. -/
theorem above (h : Leads m root j (wayTo page j) f) (lower : j ≤ k) (upper : k ≤ depth) :
    ∃ g, Leads m root k (wayTo page k) g := by
  induction lower with
  | refl => exact ⟨f, h⟩
  | step _ ih =>
    obtain ⟨g, below⟩ := ih (by omega)
    obtain ⟨table, above, -⟩ := below.inv_way (by omega)
    exact ⟨table, above⟩

/-- A way that gets on from a table gets on through its entry for the page. -/
theorem link_of_way (h : Leads m root (below + 1) (wayTo page (below + 1)) table)
    (on : Leads m root 0 (wayTo page 0) g) :
    ∃ f, link? (m.entry table (index page (below + 1))) = some f ∧
      Leads m root below (wayTo page below) f := by
  have le := h.le_depth
  obtain ⟨f, lower⟩ := on.above (Nat.zero_le below) (by omega)
  obtain ⟨table', upper, link⟩ := lower.inv_way (by omega)
  obtain rfl := h.unique upper
  exact ⟨f, link, lower⟩

end Leads

namespace Tree

theorem level (t : Tree r m root) (h : Leads m root j π f) (h' : Leads m root k ρ f) : j = k := by
  have := h.length
  have := h'.length
  have := congrArg List.length (t.once h h')
  omega

/-- The walk to a page gets to the table that the way to the page leads to. -/
theorem lastTable?_iff (t : Tree r m root) (page : Page)
    (h : Leads m root below (wayTo page below) table) :
    lastTable? m page below table = some g ↔ Leads m root 0 (wayTo page 0) g := by
  refine ⟨leads_of_lastTable? h, fun on => ?_⟩
  induction below generalizing table with
  | zero => exact congrArg some (h.unique on)
  | succ below ih =>
    obtain ⟨f, link, lower⟩ := h.link_of_way on
    rw [lastTable?, (t.plain h _).next?_eq, link]
    exact ih lower

theorem lastEntry_of_leads (t : Tree r m root) (h : Leads m root 0 (wayTo page 0) table) :
    lastEntry m root page = m.entry table (index page 0) := by
  rw [lastEntry, (t.lastTable?_iff page .root).mpr h]

theorem lastEntry_eq_zero (t : Tree r m root) (none : ∀ g, ¬ Leads m root 0 (wayTo page 0) g) :
    lastEntry m root page = 0 := by
  unfold lastEntry
  split
  · rename_i g found
    exact absurd ((t.lastTable?_iff page .root).mp found) (none g)
  · rfl

theorem plain_lastEntry (t : Tree r m root) (page : Page) : Plain (lastEntry m root page) := by
  by_cases h : ∃ g, Leads m root 0 (wayTo page 0) g
  · obtain ⟨g, on⟩ := h
    rw [t.lastEntry_of_leads on]
    exact t.plain on _
  · exact .inl (t.lastEntry_eq_zero fun g on => h ⟨g, on⟩)

/-- Entries of the last level stay the same if the ways and the tables at their ends do. -/
theorem lastEntry_congr (t : Tree r m root) (t' : Tree r' m' root)
    (same : ∀ g, Leads m' root 0 (wayTo page 0) g ↔ Leads m root 0 (wayTo page 0) g)
    (entries : ∀ g, Leads m root 0 (wayTo page 0) g →
      m'.entry g (index page 0) = m.entry g (index page 0)) :
    lastEntry m' root page = lastEntry m root page := by
  by_cases h : ∃ g, Leads m root 0 (wayTo page 0) g
  · obtain ⟨g, on⟩ := h
    rw [t.lastEntry_of_leads on, t'.lastEntry_of_leads ((same g).mpr on), entries g on]
  · rw [t.lastEntry_eq_zero fun g on => h ⟨g, on⟩,
      t'.lastEntry_eq_zero fun g on => h ⟨g, (same g).mp on⟩]

/-- Where the processor finds an address. -/
theorem translateBelow_eq (t : Tree r m root) {a : Nat}
    (h : Leads m root below (wayTo (.containing a) below) table) :
    translateBelow m a below table = (lastTable? m (.containing a) below table).bind fun last =>
      (link? (m.entry last (index (.containing a) 0))).map fun f => f.start + a % pageSize := by
  induction below generalizing table with
  | zero =>
    simp only [translateBelow, lastTable?, Option.bind_some]
    rw [(t.plain h _).link?_eq]
    obtain zero | ⟨present, -⟩ := t.plain h (index (.containing a) 0)
    · rw [zero]
      rfl
    · rw [if_pos present, if_neg (ne_zero_of_isPresent present), physical_zero]
      rfl
  | succ below ih =>
    rw [translateBelow, lastTable?, (t.plain h _).next?_eq]
    obtain zero | ⟨present, small⟩ := t.plain h (index (.containing a) (below + 1))
    · rw [zero]
      rfl
    · have link := link?_of_isPresent present small
      simp only [present, small, link, if_true, Bool.false_eq_true, if_false]
      exact ih (h.next_way link)

theorem translate_eq (t : Tree r m root) (a : Nat) : translateBelow m a depth root =
    (link? (lastEntry m root (.containing a))).map fun f => f.start + a % pageSize := by
  rw [t.translateBelow_eq .root, lastEntry]
  cases lastTable? m (.containing a) depth root <;> rfl

/-- A change that leaves all ways as they are and puts a plain entry in a table. -/
theorem set_plain (t : Tree r m root)
    (same : ∀ j ρ f, Leads (m.set table i e) root j ρ f ↔ Leads m root j ρ f) (plain : Plain e) :
    Tree r (m.set table i e) root where
  orderly := t.orderly
  outside h := t.outside ((same ..).mp h)
  once h h' := t.once ((same ..).mp h) ((same ..).mp h')
  plain h j := by
    rw [entry_set]
    split
    · exact plain
    · exact t.plain ((same ..).mp h) j

/-- An entry above the last level gains flags. -/
theorem set_gains (t : Tree r m root) (upper : Leads m root (k + 1) π table)
    (used : m.entry table i ≠ 0) (gains : Gains (m.entry table i) e) :
    Tree r (m.set table i e) root ∧
      (∀ j ρ f, Leads (m.set table i e) root j ρ f ↔ Leads m root j ρ f) ∧
      ∀ page, lastEntry (m.set table i e) root page = lastEntry m root page := by
  have links (f : Frame) (j : Fin tableLength) :
      link? ((m.set table i e).entry f j) = link? (m.entry f j) := by
    rw [entry_set]
    split
    · rename_i here
      rw [here.1, here.2, gains.link?_eq used]
    · rfl
  have same (j : Nat) (ρ : List (Fin tableLength)) (f : Frame) :
      Leads (m.set table i e) root j ρ f ↔ Leads m root j ρ f :=
    leads_congr fun _ _ _ _ _ => links ..
  have t' := t.set_plain same ((t.plain upper i).gains used gains)
  refine ⟨t', same, fun page => t.lastEntry_congr t' (same _ _) fun g on => ?_⟩
  rw [entry_set, if_neg]
  rintro ⟨rfl, -⟩
  exact absurd (t.level upper on) (Nat.succ_ne_zero k)

/-- A fresh table takes its place in an unused entry. It is empty, so no page gets an entry. -/
theorem link_table (t : Tree r m root) (upper : Leads m root (below + 1) π table)
    (unused : m.entry table i = 0) (taken : r.allocate = (some f, r'))
    (hm : m' = (m.set table i (entryFor f (mappingFlags user))).clearTable f) :
    Tree r' m' root ∧ Leads m' root below (i :: π) f ∧
      ∀ page, lastEntry m' root page = lastEntry m root page := by
  obtain ⟨orderly, held, gone, fewer⟩ := FrameReserve.allocate_some t.orderly taken
  have small := t.orderly.small f held
  have apart {k : Nat} {ρ : List (Fin tableLength)} (h : Leads m root k ρ f) : False :=
    t.outside h held
  have fresh (j : Fin tableLength) : m'.entry f j = 0 := by
    rw [hm, entry_clearTable, if_pos rfl]
  have old {k : Nat} {ρ : List (Fin tableLength)} {g : Frame} (h : Leads m root k ρ g)
      (j : Fin tableLength) : m'.entry g j =
        if g = table ∧ j = i then entryFor f (mappingFlags user) else m.entry g j := by
    rw [hm, entry_clearTable, if_neg (fun same => apart (same ▸ h)), entry_set]
  have leads (k : Nat) (ρ : List (Fin tableLength)) (g : Frame) : Leads m' root k ρ g ↔
      Leads m root k ρ g ∨ (g = f ∧ k = below ∧ ρ = i :: π) := by
    refine (leads_linked (fun k ρ h => t.level h upper) (by rw [unused]; rfl)
      (fun k ρ g h j => by rw [old h, apply_ite link?, link?_entryFor small])
      (fun j => by rw [fresh]; rfl)).trans
        (or_congr_right (and_congr_right fun _ => and_congr_right fun _ => ?_))
    constructor
    · rintro ⟨σ, rfl, h⟩
      rw [t.once h upper]
    · rintro rfl
      exact ⟨π, rfl, upper⟩
  have t' : Tree r' m' root := by
    refine ⟨orderly, fun h => ?_, fun h h' => ?_, fun h j => ?_⟩
    · obtain h | ⟨rfl, -⟩ := (leads ..).mp h
      · exact fun own => t.outside h (fewer _ own)
      · exact gone
    · obtain h | ⟨rfl, -, rfl⟩ := (leads ..).mp h
      · obtain h' | ⟨rfl, -⟩ := (leads ..).mp h'
        · exact t.once h h'
        · exact (apart h).elim
      · obtain h' | ⟨-, -, rfl⟩ := (leads ..).mp h'
        · exact (apart h').elim
        · rfl
    · obtain h | ⟨rfl, -⟩ := (leads ..).mp h
      · rw [old h]
        split
        · exact .entryFor small user
        · exact t.plain h j
      · exact .inl (fresh j)
  refine ⟨t', (leads ..).mpr (.inr ⟨rfl, rfl, rfl⟩), fun page => ?_⟩
  by_cases new : below = 0 ∧ wayTo page 0 = i :: π
  · -- The way to the page ended at the unused entry, and ends in the empty table now.
    obtain ⟨rfl, way⟩ := new
    rw [t'.lastEntry_of_leads ((leads ..).mpr (.inr ⟨rfl, rfl, way⟩)), fresh,
      t.lastEntry_eq_zero fun g on => ?_]
    rw [way] at on
    obtain ⟨table', upper', link⟩ := on.inv
    obtain rfl := upper.unique upper'
    rw [unused] at link
    exact absurd link nofun
  · refine t.lastEntry_congr t' (fun g => ?_) fun g on => ?_
    · rw [leads]
      exact or_iff_left fun ⟨_, zero, way⟩ => new ⟨zero.symm, way⟩
    · rw [old on, if_neg]
      rintro ⟨rfl, -⟩
      exact absurd (t.level upper on) (Nat.succ_ne_zero below)

/-- An entry of the last level is on no way to a table. -/
theorem leads_set_last (t : Tree r m root) (last : Leads m root 0 π table) :
    Leads (m.set table i e) root j ρ f ↔ Leads m root j ρ f := by
  refine leads_congr fun k σ g h j => ?_
  rw [entry_set, if_neg]
  rintro ⟨rfl, -⟩
  exact absurd (t.level h last) (Nat.succ_ne_zero k)

/-- An entry of the last level changes, and with it one page. -/
theorem set_last (t : Tree r m root) (canonical : Canonical page.start)
    (last : Leads m root 0 (wayTo page 0) table) (plain : Plain e) :
    Tree r (m.set table (index page 0) e) root ∧ ∀ q, Canonical q.start →
      lastEntry (m.set table (index page 0) e) root q =
        if q = page then e else lastEntry m root q := by
  have same (j : Nat) (ρ : List (Fin tableLength)) (f : Frame) :
      Leads (m.set table (index page 0) e) root j ρ f ↔ Leads m root j ρ f :=
    t.leads_set_last last
  have t' := t.set_plain same plain
  refine ⟨t', fun q hq => ?_⟩
  split
  · rename_i here
    rw [here, t'.lastEntry_of_leads ((same ..).mpr last), PhysicalMemory.entry_set_self]
  · rename_i other
    refine t.lastEntry_congr t' (fun g => same ..) fun g on => ?_
    rw [entry_set, if_neg]
    rintro ⟨rfl, here⟩
    exact other (eq_of_wayTo canonical hq (t.once on last) here)

end Tree

/-- Frames that are short are the only reason for an entry on the way not to be prepared. -/
theorem allocate_of_enter_error
    (h : enter (mappingFlags user) table i m r = (.error .frameAllocationFailed, m', r')) :
    r'.allocate.1 = none := by
  unfold enter at h
  dsimp only at h
  split at h
  · split at h
    · rename_i r₁ none
      obtain ⟨rfl, rfl⟩ : _ ∧ _ := by simpa using h
      obtain rfl := FrameReserve.allocate_none none
      rw [none]
    · exact absurd (congrArg Prod.fst h) nofun
  · split at h
    · exact absurd (congrArg Prod.fst h) nofun
    · exact absurd (congrArg Prod.fst h) nofun

namespace Tree

theorem enter (t : Tree r m root) (upper : Leads m root (below + 1) (wayTo page (below + 1)) table)
    {answer : Except MapError Frame}
    (h : enter (mappingFlags user) table (index page (below + 1)) m r = (answer, m', r')) :
    Tree r' m' root ∧ (∀ q, lastEntry m' root q = lastEntry m root q) ∧
      ((∃ f, answer = .ok f ∧ Leads m' root below (wayTo page below) f) ∨
        (answer = .error .frameAllocationFailed ∧ lastEntry m root page = 0 ∧
          r'.allocate.1 = none)) := by
  have le := upper.le_depth
  obtain ⟨used, rfl, rfl, leads⟩ | ⟨unused, f, taken, hm, rfl⟩ | ⟨unused, rfl, rfl, rfl⟩ :=
    enter_cases h
  · obtain ⟨t', same, entries⟩ := t.set_gains upper used (gains_or_mappingFlags _ user)
    have link := ((t.plain upper (index page (below + 1))).link?_eq).trans (if_neg used)
    exact ⟨t', entries, .inl ⟨_, (leads _).mpr link, (same ..).mpr (upper.next_way link)⟩⟩
  · obtain ⟨t', next, entries⟩ := t.link_table upper unused taken hm
    rw [← wayTo_succ page (by omega)] at next
    exact ⟨t', entries, .inl ⟨f, rfl, next⟩⟩
  · refine ⟨t, fun _ => rfl, .inr ⟨rfl, t.lastEntry_eq_zero fun g on => ?_,
      allocate_of_enter_error h⟩⟩
    obtain ⟨f, link, -⟩ := upper.link_of_way on
    rw [unused] at link
    exact absurd link nofun

/-- Mapping a page gives the page an entry, unless it has one or the frames run out. -/
theorem mapBelow (t : Tree r m root) (canonical : Canonical page.start)
    (small : frame.start < physicalLimit) (upper : Leads m root below (wayTo page below) table)
    {answer : Except MapError Unit}
    (h : mapBelow page frame (mappingFlags user) below table m r = (answer, m', r')) :
    Tree r' m' root ∧
      ((answer = .ok () ∧ lastEntry m root page = 0 ∧ ∀ q, Canonical q.start →
          lastEntry m' root q =
            if q = page then entryFor frame (mappingFlags user) else lastEntry m root q) ∨
        (answer = .error .alreadyMapped ∧ lastEntry m root page ≠ 0 ∧
          ∀ q, lastEntry m' root q = lastEntry m root q) ∨
        (answer = .error .frameAllocationFailed ∧ lastEntry m root page = 0 ∧
          r'.allocate.1 = none ∧ ∀ q, lastEntry m' root q = lastEntry m root q)) := by
  induction below generalizing table m r with
  | zero =>
    have entry := t.lastEntry_of_leads upper
    unfold PageTable.mapBelow at h
    split at h
    · rename_i used
      obtain ⟨rfl, rfl, rfl⟩ : _ ∧ _ ∧ _ := by simpa using h
      exact ⟨t, .inr (.inl ⟨rfl, entry ▸ used, fun _ => rfl⟩)⟩
    · rename_i unused
      obtain ⟨rfl, rfl, rfl⟩ : _ ∧ _ ∧ _ := by simpa using h
      obtain ⟨t', entries⟩ := t.set_last canonical upper (.entryFor small user)
      exact ⟨t', .inl ⟨rfl, entry.trans (Classical.not_not.mp unused), entries⟩⟩
  | succ below ih =>
    obtain ⟨f, m₁, r₁, entered, rest⟩ | ⟨e, entered, rfl⟩ := mapBelow_succ_cases h
    · obtain ⟨t₁, same, ⟨g, here, next⟩ | ⟨no, -⟩⟩ := t.enter upper entered
      · obtain rfl := Except.ok.inj here
        simpa only [same] using ih t₁ next rest
      · cases no
    · obtain ⟨t₁, same, ⟨g, no, -⟩ | ⟨here, unused, short⟩⟩ := t.enter upper entered
      · cases no
      · obtain rfl := Except.error.inj here
        exact ⟨t₁, .inr (.inr ⟨rfl, unused, short, same⟩)⟩

/-- Taking a page out takes its entry away. -/
theorem unmap (t : Tree r m root) (canonical : Canonical page.start) :
    Tree r (unmap root page m).2 root ∧ ∀ q, Canonical q.start →
      lastEntry (PageTable.unmap root page m).2 root q =
        if q = page then 0 else lastEntry m root q := by
  have unused (zero : lastEntry m root page = 0) (q : Page) :
      lastEntry m root q = if q = page then 0 else lastEntry m root q := by
    split
    · rename_i here
      rw [here, zero]
    · rfl
  unfold PageTable.unmap
  split
  · rename_i none
    refine ⟨t, fun q _ => unused ?_ q⟩
    unfold lastEntry
    rw [none]
  · rename_i table found
    have last := (t.lastTable?_iff page .root).mp found
    split
    · rename_i none
      rw [(t.plain last _).next?_eq, (t.plain last _).link?_eq] at none
      refine ⟨t, fun q _ => unused ?_ q⟩
      rw [t.lastEntry_of_leads last]
      by_contra used
      exact absurd ((if_neg used).symm.trans none) nofun
    · exact t.set_last canonical last (.inl rfl)

end Tree
end PageTable

/-- A page that the processor has addresses for. -/
@[ext]
structure VirtualPage where
  page : Page
  canonical : Canonical page.start
  deriving DecidableEq

/-- A frame with an address that an entry has room for. -/
structure PhysicalFrame where
  frame : Frame
  small : frame.start < physicalLimit
  deriving DecidableEq

/-- What can be asked about the pages of a space. -/
inductive PageCall where
  | map (page : VirtualPage) (frame : PhysicalFrame) (user : Bool)
  | unmap (page : VirtualPage)
  | isMapped (page : VirtualPage)
  deriving DecidableEq

inductive PageAnswer where
  | map (result : Except MapError Unit)
  | unmap (frame : Option Frame)
  | isMapped (mapped : Bool)
  deriving DecidableEq

/-- A call with its answer. -/
structure PageEvent where
  call : PageCall
  answer : PageAnswer
  /-- There is a frame left to hand out after the call. -/
  spare : Bool
  deriving DecidableEq

namespace PageCall

variable {π : Type} [Platform π]

def perform (space : AddressSpace) (m : π) : PageCall → PageAnswer × π
  | .map p f user =>
    let (result, m) := mapPage space p.page f.frame user m
    (.map result, m)
  | .unmap p =>
    let (frame, m) := unmapPage space p.page m
    (.unmap frame, m)
  | .isMapped p => (.isMapped (KernelCore.isMapped m space p.page), m)

/-- Makes the calls one after the other. -/
def performAll (space : AddressSpace) : List PageCall → π → List PageEvent × π
  | [], m => ([], m)
  | call :: calls, m =>
    let (answer, m) := call.perform space m
    let (events, final) := performAll space calls m
    (⟨call, answer, (allocateFrame m).1.isSome⟩ :: events, final)

end PageCall

/-- How a partial function from pages to frames answers a call, and what becomes of it. Only if no
frame is left it may refuse to map a page that is not mapped. -/
inductive FlatStep (φ : VirtualPage → Option Frame) :
    PageEvent → (VirtualPage → Option Frame) → Prop where
  | mapped {p f user spare} (absent : φ p = none) :
      FlatStep φ ⟨.map p f user, .map (.ok ()), spare⟩ (Function.update φ p (some f.frame))
  | taken {p f user spare} (present : φ p ≠ none) :
      FlatStep φ ⟨.map p f user, .map (.error .alreadyMapped), spare⟩ φ
  | exhausted {p f user} (absent : φ p = none) :
      FlatStep φ ⟨.map p f user, .map (.error .frameAllocationFailed), false⟩ φ
  | unmapped {p spare} :
      FlatStep φ ⟨.unmap p, .unmap (φ p), spare⟩ (Function.update φ p none)
  | asked {p spare} : FlatStep φ ⟨.isMapped p, .isMapped (φ p).isSome, spare⟩ φ

/-- A partial function from pages to frames goes through a list of events. -/
def FlatRun : (VirtualPage → Option Frame) → List PageEvent → (VirtualPage → Option Frame) → Prop
  | φ, [], ψ => φ = ψ
  | φ, event :: events, ψ => ∃ χ, FlatStep φ event χ ∧ FlatRun χ events ψ

namespace PagingMachine

open PageTable

/-- The frame that the processor finds for each page of a space. -/
def frames (m : PagingMachine) (space : AddressSpace) (p : VirtualPage) : Option Frame :=
  (m.translate space p.page.start).map Frame.containing

/-- The tables of the space form a tree of plain entries that has no frame of the reserve in it. -/
def Treelike (m : PagingMachine) (space : AddressSpace) : Prop :=
  Tree m.reserve m.tables (rootOf space)

variable {m u : PagingMachine} {space : AddressSpace}

theorem frames_eq (t : m.Treelike space) (p : VirtualPage) :
    m.frames space p = link? (lastEntry m.tables (rootOf space) p.page) := by
  have aligned : p.page.start % pageSize = 0 := Nat.mul_mod_left ..
  rw [frames, translate, Tree.translate_eq t, Option.map_map, Page.containing_start, aligned]
  simp [Function.comp_def]

theorem frames_eq_none_iff (t : m.Treelike space) (p : VirtualPage) :
    m.frames space p = none ↔ lastEntry m.tables (rootOf space) p.page = 0 := by
  rw [frames_eq t, (Tree.plain_lastEntry t p.page).link?_eq]
  simp

/-- The frame of a page is the one of the whole page. -/
theorem translate_eq_frames (t : m.Treelike space) (p : VirtualPage) {o : Nat} (h : o < pageSize) :
    m.translate space (p.page.start + o) = (m.frames space p).map fun f => f.start + o := by
  have offset : (p.page.start + o) % pageSize = o := by
    rw [Page.start, Nat.mul_add_mod_self_right, Nat.mod_eq_of_lt h]
  rw [frames_eq t, translate, Tree.translate_eq t, Page.containing_start_add _ h, offset]

/-- If one entry of the last level changes, one page does. -/
theorem frames_update (t : m.Treelike space) (t' : u.Treelike space) {p : VirtualPage} {e : UInt64}
    (entries : ∀ q, Canonical q.start → lastEntry u.tables (rootOf space) q =
      if q = p.page then e else lastEntry m.tables (rootOf space) q) :
    u.frames space = Function.update (m.frames space) p (link? e) := by
  funext q
  rw [Function.update_apply, frames_eq t, frames_eq t', entries q.page q.canonical]
  by_cases here : q = p
  · rw [if_pos here, if_pos (congrArg VirtualPage.page here)]
  · rw [if_neg here, if_neg fun same => here (VirtualPage.ext same)]

theorem frames_congr (t : m.Treelike space) (t' : u.Treelike space)
    (same : ∀ q, lastEntry u.tables (rootOf space) q = lastEntry m.tables (rootOf space) q) :
    u.frames space = m.frames space := by
  funext q
  rw [frames_eq t, frames_eq t', same]

theorem flatStep_map (t : m.Treelike space) (p : VirtualPage) (f : PhysicalFrame) (user : Bool)
    {answer : PageAnswer} (h : (PageCall.map p f user).perform space m = (answer, u)) :
    u.Treelike space ∧ FlatStep (m.frames space)
      ⟨.map p f user, answer, (allocateFrame u).1.isSome⟩ (u.frames space) := by
  rcases call : mapPage space p.page f.frame user m with ⟨result, v⟩
  obtain ⟨rfl, rfl⟩ : PageAnswer.map result = answer ∧ v = u := by
    simpa [PageCall.perform, call] using h
  obtain ⟨run, -⟩ := map_of_mapPage call
  obtain ⟨grown, ends⟩ := Tree.mapBelow t p.canonical f.small .root run
  have t' : v.Treelike space := grown
  refine ⟨t', ?_⟩
  obtain ⟨rfl, absent, entries⟩ | ⟨rfl, present, same⟩ | ⟨rfl, absent, short, same⟩ := ends
  · rw [frames_update t t' entries, link?_entryFor f.small]
    exact .mapped ((frames_eq_none_iff t p).mpr absent)
  · rw [frames_congr t t' same]
    exact .taken fun none => present ((frames_eq_none_iff t p).mp none)
  · have short' : (allocateFrame v).1 = none := short
    rw [frames_congr t t' same, short']
    exact .exhausted ((frames_eq_none_iff t p).mpr absent)

theorem flatStep_unmap (t : m.Treelike space) (p : VirtualPage) {answer : PageAnswer}
    (h : (PageCall.unmap p).perform space m = (answer, u)) : u.Treelike space ∧
      FlatStep (m.frames space) ⟨.unmap p, answer, (allocateFrame u).1.isSome⟩ (u.frames space) := by
  obtain ⟨rfl, rfl⟩ : PageAnswer.unmap (unmapPage space p.page m).1 = answer ∧
    (unmapPage space p.page m).2 = u := Prod.mk.inj h
  obtain ⟨thinned, entries⟩ := Tree.unmap t p.canonical
  have t' : (unmapPage space p.page m).2.Treelike space := thinned
  have given : (unmapPage space p.page m).1 = m.frames space p := by
    rw [frames_eq t, ← (Tree.plain_lastEntry t p.page).next?_eq]
    exact unmap_fst ..
  refine ⟨t', ?_⟩
  rw [frames_update t t' entries, given]
  exact .unmapped

theorem flatStep_isMapped (t : m.Treelike space) (p : VirtualPage) {answer : PageAnswer}
    (h : (PageCall.isMapped p).perform space m = (answer, u)) : u.Treelike space ∧
      FlatStep (m.frames space) ⟨.isMapped p, answer, (allocateFrame u).1.isSome⟩
        (u.frames space) := by
  obtain ⟨rfl, rfl⟩ := Prod.mk.inj h
  have told : KernelCore.isMapped m space p.page = (m.frames space p).isSome := by
    rw [frames_eq t, (Tree.plain_lastEntry t p.page).link?_eq]
    refine (isMapped_eq ..).trans ?_
    by_cases zero : lastEntry m.tables (rootOf space) p.page = 0 <;> simp [zero]
  refine ⟨t, ?_⟩
  rw [told]
  exact .asked

theorem flatStep_perform (t : m.Treelike space) {call : PageCall} {answer : PageAnswer}
    (h : call.perform space m = (answer, u)) : u.Treelike space ∧
      FlatStep (m.frames space) ⟨call, answer, (allocateFrame u).1.isSome⟩ (u.frames space) := by
  cases call with
  | map p f user => exact flatStep_map t p f user h
  | unmap p => exact flatStep_unmap t p h
  | isMapped p => exact flatStep_isMapped t p h

/-- Whatever is asked about the pages of a space whose tables form a tree, the space answers as a
partial function from pages to frames, and the processor finds every address where this function
says. -/
theorem flatRun_performAll (tree : m.Treelike space) {calls : List PageCall}
    {events : List PageEvent} (h : PageCall.performAll space calls m = (events, u)) :
    FlatRun (m.frames space) events (u.frames space) ∧ events.map PageEvent.call = calls ∧
      u.Treelike space ∧ ∀ p : VirtualPage, ∀ o < pageSize,
        u.translate space (p.page.start + o) = (u.frames space p).map fun f => f.start + o := by
  induction calls generalizing m events with
  | nil =>
    obtain ⟨rfl, rfl⟩ := Prod.mk.inj h
    exact ⟨rfl, rfl, tree, fun p o => translate_eq_frames tree p⟩
  | cons call calls ih =>
    rcases first : call.perform space m with ⟨answer, m₁⟩
    rcases rest : PageCall.performAll space calls m₁ with ⟨later, final⟩
    rw [PageCall.performAll, first] at h
    dsimp only at h
    rw [rest] at h
    obtain ⟨rfl, rfl⟩ := Prod.mk.inj h
    obtain ⟨t₁, step⟩ := flatStep_perform tree first
    obtain ⟨run, rfl, t', found⟩ := ih t₁ rest
    exact ⟨⟨_, step, run⟩, rfl, t', found⟩

/-- An empty space, and three frames for tables. The first one is full of old bytes. -/
def dusty : PagingMachine where
  tables := ⟨fun f _ => if f = ⟨5⟩ then 0xffffffffffffffff else 0⟩
  reserve := { next := 0x1000000, limit := 0x1003000, recycled := [⟨5⟩] }

theorem leads_dusty {k : Nat} {π : List (Fin tableLength)} {f : Frame}
    (h : Leads dusty.tables (rootOf ⟨0x1000⟩) k π f) : f = ⟨1⟩ ∧ π = [] := by
  induction h with
  | root => exact ⟨rfl, rfl⟩
  | next _ link ih =>
    rw [ih.1] at link
    exact absurd link nofun

theorem treelike_dusty : dusty.Treelike ⟨0x1000⟩ where
  orderly := by
    refine ⟨by decide, fun f old low => ?_, fun f held => ?_⟩
    · obtain rfl := List.mem_singleton.mp old
      exact absurd low (by decide)
    · obtain old | ⟨-, high⟩ := held
      · obtain rfl := List.mem_singleton.mp old
        decide
      · exact Nat.lt_of_le_of_lt (Nat.le_add_right ..) (Nat.lt_trans high (by decide))
  outside h := by
    obtain ⟨rfl, -⟩ := leads_dusty h
    rintro (old | ⟨low, -⟩)
    · exact absurd old (by decide)
    · exact absurd low (by decide)
  once h h' := (leads_dusty h).2.trans (leads_dusty h').2.symm
  plain h i := by
    obtain ⟨rfl, -⟩ := leads_dusty h
    exact .inl rfl

/-- Two pages that are far apart are to be mapped. There is memory for the way to one of them. -/
def mapped : List PageEvent × PagingMachine :=
  PageCall.performAll ⟨0x1000⟩ [.map ⟨⟨0x400⟩, by decide⟩ ⟨⟨0x2000⟩, by decide⟩ true,
    .map ⟨⟨0x8000000⟩, by decide⟩ ⟨⟨0x2001⟩, by decide⟩ true, .isMapped ⟨⟨0x8000000⟩, by decide⟩]
    dusty

theorem flatRun_performAll_dusty :
    FlatRun (dusty.frames ⟨0x1000⟩)
      [⟨.map ⟨⟨0x400⟩, by decide⟩ ⟨⟨0x2000⟩, by decide⟩ true, .map (.ok ()), false⟩,
        ⟨.map ⟨⟨0x8000000⟩, by decide⟩ ⟨⟨0x2001⟩, by decide⟩ true,
          .map (.error .frameAllocationFailed), false⟩,
        ⟨.isMapped ⟨⟨0x8000000⟩, by decide⟩, .isMapped false, false⟩]
      (mapped.2.frames ⟨0x1000⟩) ∧ mapped.2.translate ⟨0x1000⟩ 0x400abc = some 0x2000abc := by
  have events : mapped.1 = [⟨.map ⟨⟨0x400⟩, by decide⟩ ⟨⟨0x2000⟩, by decide⟩ true, .map (.ok ()),
      false⟩, ⟨.map ⟨⟨0x8000000⟩, by decide⟩ ⟨⟨0x2001⟩, by decide⟩ true,
        .map (.error .frameAllocationFailed), false⟩,
      ⟨.isMapped ⟨⟨0x8000000⟩, by decide⟩, .isMapped false, false⟩] := by decide +kernel
  obtain ⟨run, -, -, found⟩ := flatRun_performAll (u := mapped.2) treelike_dusty (Prod.ext events rfl)
  have frame : mapped.2.frames ⟨0x1000⟩ ⟨⟨0x400⟩, by decide⟩ = some ⟨0x2000⟩ := by decide +kernel
  have address := found ⟨⟨0x400⟩, by decide⟩ 0xabc (by decide)
  have start : (⟨0x400⟩ : Page).start + 0xabc = 0x400abc := rfl
  rw [start, frame] at address
  exact ⟨run, address⟩

end PagingMachine
end KernelCore
