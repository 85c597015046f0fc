import KernelCore.Proofs.TableGrowth

/-!
# Which entries a mapping opens to ring 3

Mapping a page for ring 3 opens every entry in use that the way to the page meets above the last
level, whether the page can be mapped in the end or not. If no frame serves as a table of two
levels, it opens no other entry that was in use.
-/
namespace KernelCore
namespace PageTable

/-- The frame is a table of the space with this root, so many levels above the last. -/
inductive Table (m : PhysicalMemory) (root : Frame) : (below : Nat) → Frame → Prop where
  | root : Table m root depth root
  | next {below : Nat} {table f : Frame} {i : Fin tableLength}
      (upper : Table m root (below + 1) table) (link : link? (m.entry table i) = some f) :
      Table m root below f

variable {free : Frame → Prop} {r r' : FrameReserve} {m₀ m m' : PhysicalMemory} {page : Page}
  {below : Nat} {root table f frame : Frame} {i : Fin tableLength} {user : Bool}

theorem table_of_mem_places (h : Table m root below table)
    (met : (f, i) ∈ places m page below table) : ∃ k, Table m root k f := by
  induction below generalizing table with
  | zero =>
    obtain ⟨rfl, -⟩ := Prod.mk.inj (List.mem_singleton.mp met)
    exact ⟨0, h⟩
  | succ below ih =>
    obtain here | met := List.mem_cons.mp met
    · obtain ⟨rfl, -⟩ := Prod.mk.inj here
      exact ⟨below + 1, h⟩
    · split at met
      · rename_i link
        exact ih (h.next link) met
      · exact absurd met List.not_mem_nil

/-- An entry that was prepared for a page of ring 3 is open to it. -/
theorem isUser_enter {answer : Except MapError Frame} (used : m.entry table i ≠ 0)
    (h : enter (mappingFlags true) table i m r = (answer, m', r')) :
    isUser (m'.entry table i) := by
  obtain ⟨-, rfl, -⟩ | ⟨unused, -⟩ | ⟨unused, -⟩ := enter_cases h
  · rw [PhysicalMemory.entry_set_self, isUser, bne_iff_ne, or_and_distrib]
    exact fun zero => absurd (UInt64.or_eq_zero_iff.mp zero).2 (by decide)
  · exact absurd unused used
  · exact absurd unused used

/-- An entry in use on the way to a page is open to ring 3 once the page was to be mapped for it. -/
theorem isUser_mapBelow (g : Growth free m₀ r m) (t : Taken free r frame)
    {answer : Except MapError Unit}
    (h : mapBelow page frame (mappingFlags true) below table m r = (answer, m', r'))
    (outside : ∀ f i, (f, i) ∈ places m₀ page below table → ¬ free f)
    (met : (f, i) ∈ (places m₀ page below table).take below) (used : m₀.entry f i ≠ 0) :
    isUser (m'.entry f i) := by
  induction below generalizing table m r with
  | zero => exact absurd met List.not_mem_nil
  | succ below ih =>
    have here (used : m₀.entry table (index page (below + 1)) ≠ 0) :=
      InUse.mk (outside table _ (List.mem_cons_self ..)) used
    rw [places, List.take_succ_cons, List.mem_cons] at met
    obtain head | met := met
    · obtain ⟨rfl, rfl⟩ := Prod.mk.inj head
      obtain ⟨entered, m₁, r₁, enters, g₁, later⟩ := g.mapBelow_succ t h
      have opened := isUser_enter (g.inUse (here used)).used enters
      exact (later.kept _ _ ⟨(here used).outside, (g₁.inUse (here used)).used⟩).isUser opened
    · split at met
      · rename_i next link
        rw [places_of_link link] at outside
        have link' := (g.link?_eq (here (link?_eq_some link).1)).trans link
        obtain ⟨f, m₁, r₁, enters, rest⟩ | ⟨e, enters, -⟩ := mapBelow_succ_cases h
        · obtain rfl := Except.ok.inj (enter_of_link link' enters)
          exact ih (g.enter enters) (t.enter g.orderly enters) rest
            (fun f i met => outside f i (List.mem_cons_of_mem _ met)) met
        · cases enter_of_link link' enters
      · exact absurd met (by simp)

/-- No frame is a table of two levels, none is still in the reserve, and the tables that were free
before lead only to frames that were free. -/
structure Layered (free : Frame → Prop) (r : FrameReserve) (m : PhysicalMemory) (root : Frame) :
    Prop where
  level : ∀ {j k f}, Table m root j f → Table m root k f → j = k
  outside : ∀ {k f}, Table m root k f → ¬ r.Holds f
  closed : ∀ {k f}, Table m root k f → free f → ∀ i, m.entry f i = 0 ∨ free (frameOf (m.entry f i))

/-- Tables stay tables while pages are mapped. -/
theorem Table.grown (h : Table m root below f) (outside : ∀ {k f}, Table m root k f → ¬ free f)
    (g : Growth free m r' m') : Table m' root below f := by
  induction h with
  | root => exact .root
  | next upper link ih =>
    exact ih.next ((g.link?_eq ⟨outside upper, (link?_eq_some link).1⟩).trans link)

/-- What is a table after a change was one before or is new, if new tables are empty. -/
theorem table_cases (new : Nat → Frame → Prop)
    (leads : ∀ k t i f, Table m root (k + 1) t → link? (m'.entry t i) = some f →
      Table m root k f ∨ new k f)
    (ends : ∀ k t i, new (k + 1) t → link? (m'.entry t i) = none)
    (h : Table m' root below f) : Table m root below f ∨ new below f := by
  induction h with
  | root => exact .inl .root
  | next upper link ih =>
    obtain old | fresh := ih
    · exact leads _ _ _ _ old link
    · exact absurd ((ends _ _ _ fresh).symm.trans link) nofun

namespace Layered

theorem allocate (l : Layered free r m root) (fewer : ∀ f, r'.Holds f → r.Holds f) :
    Layered free r' m root := ⟨l.level, fun h held => l.outside h (fewer _ held), l.closed⟩

theorem set_gains (l : Layered free r m root) {e : UInt64} (used : m.entry table i ≠ 0)
    (gains : Gains (m.entry table i) e) : Layered free r (m.set table i e) root := by
  have same (t : Frame) (j : Fin tableLength) :
      link? ((m.set table i e).entry t j) = link? (m.entry t j) := by
    rw [entry_set]
    split
    · rename_i here
      rw [here.1, here.2, gains.link?_eq used]
    · rfl
  have back {k : Nat} {f : Frame} (h : Table (m.set table i e) root k f) : Table m root k f :=
    (table_cases (fun _ _ => False) (fun _ t j _ upper link =>
      .inl (upper.next ((same t j).symm.trans link))) (fun _ _ _ => False.elim) h).resolve_right id
  refine ⟨fun a b => l.level (back a) (back b), fun a => l.outside (back a), fun a held j => ?_⟩
  rw [entry_set]
  split
  · rename_i here
    obtain ⟨rfl, rfl⟩ := here
    exact .inr (gains.frameOf_eq ▸ (l.closed (back a) held j).resolve_left used)
  · exact l.closed (back a) held j

/-- An entry of the last level leads to no table. -/
theorem set_last (l : Layered free r m root) {e : UInt64} (last : Table m root 0 table)
    (fresh : free (frameOf e)) : Layered free r (m.set table i e) root := by
  have back {k : Nat} {f : Frame} (h : Table (m.set table i e) root k f) : Table m root k f := by
    refine (table_cases (fun _ _ => False) (fun k t j f upper link => .inl ?_)
      (fun _ _ _ => False.elim) h).resolve_right id
    have apart : t ≠ table := fun same => absurd (l.level (same ▸ upper) last) (Nat.succ_ne_zero k)
    rw [entry_set, if_neg fun here => apart here.1] at link
    exact upper.next link
  refine ⟨fun a b => l.level (back a) (back b), fun a => l.outside (back a), fun a held j => ?_⟩
  rw [entry_set]
  split
  · exact .inr fresh
  · exact l.closed (back a) held j

/-- A fresh table takes its place one level below. -/
theorem set_table (l : Layered free r m root) (orderly : r.Orderly)
    (fewer : ∀ f, r.Holds f → free f) (upper : Table m root (below + 1) table) (unused : m.entry table i = 0)
    (taken : r.allocate = (some f, r')) :
    Layered free r' ((m.set table i (entryFor f (mappingFlags user))).clearTable f) root := by
  obtain ⟨-, held, gone, fewer'⟩ := FrameReserve.allocate_some orderly taken
  have small := orderly.small f held
  have apart {k : Nat} {t : Frame} (h : Table m root k t) : t ≠ f :=
    fun same => l.outside h (same ▸ held)
  have entry_old {k : Nat} {t : Frame} (h : Table m root k t) (j : Fin tableLength) :
      ((m.set table i (entryFor f (mappingFlags user))).clearTable f).entry t j =
        if t = table ∧ j = i then entryFor f (mappingFlags user) else m.entry t j := by
    rw [entry_clearTable, if_neg (apart h), entry_set]
  have entry_new (j : Fin tableLength) :
      ((m.set table i (entryFor f (mappingFlags user))).clearTable f).entry f j = 0 := by
    rw [entry_clearTable, if_pos rfl]
  have back {k : Nat} {g : Frame}
      (h : Table ((m.set table i (entryFor f (mappingFlags user))).clearTable f) root k g) :
      Table m root k g ∨ (k = below ∧ g = f) := by
    refine table_cases (fun k g => k = below ∧ g = f) (fun k t j g old link => ?_)
      (fun k t j new => ?_) h
    · rw [entry_old old] at link
      split at link
      · rename_i here
        obtain ⟨rfl, rfl⟩ := here
        have level : k + 1 = below + 1 := l.level old upper
        rw [link?_entryFor small] at link
        exact .inr ⟨by omega, (Option.some.inj link).symm⟩
      · exact .inl (old.next link)
    · rw [new.2, entry_new]
      rfl
  refine ⟨fun a b => ?_, fun a => ?_, fun a held' j => ?_⟩
  · obtain old | ⟨hj, rfl⟩ := back a
    · obtain old' | ⟨-, same⟩ := back b
      · exact l.level old old'
      · exact absurd same (apart old)
    · obtain old' | ⟨hk, -⟩ := back b
      · exact absurd rfl (apart old')
      · rw [hj, hk]
  · obtain old | ⟨-, rfl⟩ := back a
    · exact fun held => l.outside old (fewer' _ held)
    · exact gone
  · obtain old | ⟨-, rfl⟩ := back a
    · rw [entry_old old]
      split
      · rw [frameOf_entryFor_mappingFlags user small]
        exact .inr (fewer f held)
      · exact l.closed old held' j
    · exact .inl (entry_new j)

/-- Preparing an entry of a table keeps the levels apart, and what it leads to is a table. -/
theorem enter (l : Layered free r m root) (orderly : r.Orderly) (fewer : ∀ f, r.Holds f → free f)
    (upper : Table m root (below + 1) table)
    (h : enter (mappingFlags user) table i m r = (.ok f, m', r')) :
    Layered free r' m' root ∧ Table m' root below f := by
  have grown := (Growth.refl m orderly fun _ => id).enter h
  have link := link?_enter_of_outside orderly (l.outside upper) h
  refine ⟨?_, (upper.grown l.outside grown).next link⟩
  obtain ⟨used, rfl, rfl, -⟩ | ⟨unused, g, taken, rfl, -⟩ | ⟨-, -, -, no⟩ := enter_cases h
  · exact l.set_gains used (gains_or_mappingFlags _ user)
  · exact l.set_table orderly fewer upper unused taken
  · exact absurd no nofun

theorem mapBelow (l : Layered free r m root) (orderly : r.Orderly)
    (fewer : ∀ f, r.Holds f → free f) (t : Taken free r frame) (upper : Table m root below table)
    (h : mapBelow page frame (mappingFlags user) below table m r = (.ok (), m', r')) :
    Layered free r' m' root := by
  induction below generalizing table m r with
  | zero =>
    obtain ⟨-, rfl, rfl⟩ := mapBelow_zero_ok h
    refine l.set_last upper ?_
    rw [frameOf_entryFor_mappingFlags user t.small]
    exact t.fresh
  | succ below ih =>
    obtain ⟨f, m₁, r₁, entered, rest⟩ := mapBelow_succ_ok h
    obtain ⟨l₁, next⟩ := l.enter orderly fewer upper entered
    have g₁ := (Growth.refl m orderly fewer).enter entered
    exact ih l₁ g₁.orderly g₁.fewer (t.enter orderly entered) next rest

end Layered

/-- Preparing an entry changes no other one that was in use. -/
theorem entry_enter (g : Growth free m₀ r m) {answer : Except MapError Frame} {j : Fin tableLength}
    (h : enter (mappingFlags user) table j m r = (answer, m', r')) (old : InUse free m₀ f i) :
    m'.entry f i = m.entry f i ∨ (f, i) = (table, j) := by
  by_cases here : f = table ∧ i = j
  · exact .inr (Prod.ext here.1 here.2)
  · obtain ⟨-, rfl, -⟩ | ⟨-, t, taken, rfl, -⟩ | ⟨-, rfl, -⟩ := enter_cases h
    · rw [entry_set, if_neg here]
      exact .inl rfl
    · obtain ⟨-, held, -⟩ := FrameReserve.allocate_some g.orderly taken
      have apart : f ≠ t := fun same => old.outside (same ▸ g.fewer t held)
      rw [entry_clearTable, if_neg apart, entry_set, if_neg here]
      exact .inl rfl
    · exact .inl rfl

/-- Mapping a page changes an entry in use only if the way to the page meets it above the last
level. -/
theorem entry_mapBelow (g : Growth free m₀ r m) (l : Layered free r m root)
    (upper : Table m root below table) {answer : Except MapError Unit}
    (h : mapBelow page frame (mappingFlags user) below table m r = (answer, m', r'))
    (old : InUse free m₀ f i) : m'.entry f i = m.entry f i ∨
      (¬ free table ∧ (f, i) ∈ (places m₀ page below table).take below) := by
  induction below generalizing table m r with
  | zero =>
    rw [mapBelow] at h
    split at h
    · obtain ⟨-, rfl, -⟩ : _ ∧ _ ∧ _ := by simpa using h
      exact .inl rfl
    · rename_i unused
      obtain ⟨-, rfl, -⟩ : _ ∧ _ ∧ _ := by simpa using h
      refine .inl ?_
      rw [entry_set, if_neg]
      rintro ⟨rfl, rfl⟩
      exact unused (g.inUse old).used
  | succ below ih =>
    have head (same : (f, i) = (table, index page (below + 1))) : ¬ free table ∧
        (f, i) ∈ (places m₀ page (below + 1) table).take (below + 1) := by
      obtain ⟨rfl, rfl⟩ := Prod.mk.inj same
      exact ⟨old.outside, List.mem_cons_self ..⟩
    obtain ⟨next, m₁, r₁, entered, rest⟩ | ⟨e, entered, -⟩ := mapBelow_succ_cases h
    · obtain same₁ | here := entry_enter g entered old
      · have g₁ := g.enter entered
        obtain ⟨l₁, lower⟩ := l.enter g.orderly g.fewer upper entered
        obtain same | ⟨outside, met⟩ := ih g₁ l₁ lower rest
        · exact .inl (same.trans same₁)
        · -- The way goes on in a table that was not free, so it went there before.
          have upper₁ := upper.grown l.outside ((Growth.refl m g.orderly fun _ => id).enter entered)
          have link₁ := link?_enter_of_outside g.orderly (l.outside upper) entered
          have link := (g₁.link?_origin link₁).resolve_right fun new => outside new.1
          obtain ⟨used, -, rfl⟩ := link?_eq_some link₁
          have outside' (held : free table) :=
            (l₁.closed upper₁ held _).elim used outside
          rw [places_of_link link, List.take_succ_cons]
          exact .inr ⟨outside', List.mem_cons_of_mem _ met⟩
      · exact .inr (head here)
    · exact (entry_enter g entered old).imp id head

end PageTable
end KernelCore
