import KernelCore.Proofs.PreparedEntries
import KernelCore.Proofs.TableRollback

/-!
# Paths to tables

A table of a space is reached from the root by the entries taken on the way. To prepare an entry that
is in use changes no path, since the entry only gains flags. One that is not in use gets a fresh
table, which is empty, so just the paths to the table that it lies in are prolonged to the fresh
one. An entry of the last level is on no path. So much holds for all spaces at once, also for spaces
that share tables.
-/
namespace KernelCore
namespace PageTable

/-- From the root, entries with these indices, the last one first, lead to the table, which is so
many levels above the last. -/
inductive Leads (m : PhysicalMemory) (root : Frame) :
    (below : Nat) → List (Fin tableLength) → Frame → Prop where
  | root : Leads m root depth [] root
  | next {below : Nat} {path : List (Fin tableLength)} {table f : Frame} {i : Fin tableLength}
      (upper : Leads m root (below + 1) path table) (link : link? (m.entry table i) = some f) :
      Leads m root below (i :: path) f

/-- The indices of a page in the tables more than so many levels above the last, the uppermost one
at the end. -/
def wayTo (page : Page) (below : Nat) : List (Fin tableLength) :=
  (List.range' (below + 1) (depth - below)).map (index page)

theorem wayTo_succ (page : Page) {below : Nat} (h : below < depth) :
    wayTo page below = index page (below + 1) :: wayTo page (below + 1) := by
  have steps : depth - below = (depth - (below + 1)) + 1 := by omega
  rw [wayTo, steps, List.range'_succ, List.map_cons, wayTo]

/-- Every way but the empty one ends with the index in the root table. -/
theorem wayTo_concat (page : Page) {below : Nat} (h : below < depth) :
    ∃ way, wayTo page below = way ++ [index page depth] := by
  have steps : depth - below = (depth - (below + 1)) + 1 := by omega
  have last : below + 1 + 1 * (depth - (below + 1)) = depth := by omega
  refine ⟨(List.range' (below + 1) (depth - (below + 1))).map (index page), ?_⟩
  rw [wayTo, steps, List.range'_concat, last, List.map_append, List.map_singleton]

variable {r r' : FrameReserve} {m m' : PhysicalMemory} {page : Page} {below j k : Nat}
  {root table f g frame : Frame} {i : Fin tableLength} {path π ρ : List (Fin tableLength)}
  {user : Bool}

namespace Leads

theorem length (h : Leads m root k path f) : path.length + k = depth := by
  induction h with
  | root => rfl
  | next _ _ ih =>
    rw [List.length_cons]
    omega

theorem le_depth (h : Leads m root k path f) : k ≤ depth := by
  have := h.length
  omega

theorem isTable (h : Leads m root k path f) : Table m root k f := by
  induction h with
  | root => exact .root
  | next _ link ih => exact ih.next link

theorem inv (h : Leads m root k (i :: path) f) :
    ∃ table, Leads m root (k + 1) path table ∧ link? (m.entry table i) = some f := by
  cases h with
  | next upper link => exact ⟨_, upper, link⟩

theorem unique (h : Leads m root j path f) (h' : Leads m root k path g) : f = g := by
  induction h generalizing k g with
  | root =>
    cases h'
    rfl
  | next _ link ih =>
    obtain ⟨table, upper, link'⟩ := h'.inv
    obtain rfl := ih upper
    exact Option.some.inj (link.symm.trans link')

/-- The way to a page goes on below a table. -/
theorem next_way (h : Leads m root (below + 1) (wayTo page (below + 1)) table)
    (link : link? (m.entry table (index page (below + 1))) = some f) :
    Leads m root below (wayTo page below) f := by
  have le := h.le_depth
  rw [wayTo_succ page (by omega)]
  exact h.next link

/-- A table on the way to a page is reached from one a level above. -/
theorem inv_way (h : Leads m root below (wayTo page below) f) (upper : below < depth) :
    ∃ table, Leads m root (below + 1) (wayTo page (below + 1)) table ∧
      link? (m.entry table (index page (below + 1))) = some f := by
  rw [wayTo_succ page upper] at h
  exact h.inv

end Leads

/-- The places that the way to a page meets lie in tables on this way. -/
theorem leads_of_mem_places (h : Leads m root below (wayTo page below) table)
    (met : (f, i) ∈ places m page below table) :
    ∃ k, Leads m root k (wayTo page k) f ∧ i = index page k := by
  induction below generalizing table with
  | zero =>
    obtain ⟨rfl, rfl⟩ := Prod.mk.inj (List.mem_singleton.mp met)
    exact ⟨0, h, rfl⟩
  | succ below ih =>
    obtain here | met := List.mem_cons.mp met
    · obtain ⟨rfl, rfl⟩ := Prod.mk.inj here
      exact ⟨below + 1, h, rfl⟩
    · split at met
      · rename_i link
        exact ih (h.next_way link) met
      · exact absurd met List.not_mem_nil

/-- A walk that gets to a table of the last level goes along the way to the page. -/
theorem leads_of_lastTable? (h : Leads m root below (wayTo page below) table)
    (found : lastTable? m page below table = some f) : Leads m root 0 (wayTo page 0) f := by
  induction below generalizing table with
  | zero => exact Option.some.inj found ▸ h
  | succ below ih =>
    obtain ⟨g, link, rest⟩ := lastTable?_succ found
    exact ih (h.next_way link) rest

/-- Paths stay the same if the entries of all tables above the last level lead where they led. -/
theorem leads_congr
    (same : ∀ k π t, Leads m root (k + 1) π t → ∀ i, link? (m'.entry t i) = link? (m.entry t i)) :
    Leads m' root k π f ↔ Leads m root k π f := by
  constructor
  · intro h
    induction h with
    | root => exact .root
    | next _ link ih => exact ih.next ((same _ _ _ ih _).symm.trans link)
  · intro h
    induction h with
    | root => exact .root
    | next upper link ih => exact ih.next ((same _ _ _ upper _).trans link)

/-- A table that gets its place in an unused entry is reached by the paths to that entry, and nothing
else is reached that was not reached before. -/
theorem leads_linked (level : ∀ k π, Leads m root k π table → k = below + 1)
    (unused : link? (m.entry table i) = none)
    (links : ∀ k π t, Leads m root (k + 1) π t → ∀ j,
      link? (m'.entry t j) = if t = table ∧ j = i then some f else link? (m.entry t j))
    (empty : ∀ j, link? (m'.entry f j) = none) :
    Leads m' root k π g ↔ Leads m root k π g ∨
      (g = f ∧ k = below ∧ ∃ ρ, π = i :: ρ ∧ Leads m root (below + 1) ρ table) := by
  have old {k : Nat} {π : List (Fin tableLength)} {g : Frame} (h : Leads m root k π g) :
      Leads m' root k π g := by
    induction h with
    | root => exact .root
    | next upper link ih =>
      refine ih.next ((links _ _ _ upper _).trans ((if_neg ?_).trans link))
      rintro ⟨rfl, rfl⟩
      exact absurd (unused.symm.trans link) nofun
  constructor
  · intro h
    induction h with
    | root => exact .inl .root
    | next upper link ih =>
      obtain before | ⟨rfl, -, -⟩ := ih
      · rw [links _ _ _ before] at link
        split at link
        · rename_i here
          obtain ⟨rfl, rfl⟩ := here
          have here := Nat.succ.inj (level _ _ before)
          exact .inr ⟨(Option.some.inj link).symm, here, _, rfl, here ▸ before⟩
        · exact .inl (before.next link)
      · exact absurd ((empty _).symm.trans link) nofun
  · rintro (h | ⟨rfl, rfl, ρ, rfl, upper⟩)
    · exact old h
    · exact (old upper).next ((links _ _ _ upper i).trans (if_pos ⟨rfl, rfl⟩))

/-- An entry of the last level maps one page. -/
theorem physical_zero (e : UInt64) (a : Nat) :
    physical e 0 a = (frameOf e).start + a % pageSize := by
  simp [physical, reachOf, Frame.start, pageSize, Nat.shiftLeft_eq]

theorem isPresent_or_mappingFlags (e : UInt64) (user : Bool) :
    isPresent (e ||| mappingFlags user) := by
  rw [isPresent, bne_iff_ne, or_and_distrib]
  intro zero
  exact absurd (UInt64.or_eq_zero_iff.mp zero).2 (by cases user <;> decide)

/-- To prepare an entry leaves all entries leading where they led, or else it gives an unused entry a
fresh table. -/
theorem enter_links (orderly : r.Orderly) (outside : ¬ r.Holds table) {answer : Except MapError Frame}
    (h : enter (mappingFlags user) table i m r = (answer, m', r')) :
    (r' = r ∧ ∀ t j, link? (m'.entry t j) = link? (m.entry t j)) ∨
    ∃ f, m.entry table i = 0 ∧ r.allocate = (some f, r') ∧ answer = .ok f ∧
      (∀ t j, t ≠ f → link? (m'.entry t j) =
        if t = table ∧ j = i then some f else link? (m.entry t j)) ∧
      ∀ j, m'.entry f j = 0 := by
  obtain ⟨used, rfl, rfl, -⟩ | ⟨unused, f, taken, rfl, rfl⟩ | ⟨-, rfl, rfl, -⟩ := enter_cases h
  · refine .inl ⟨rfl, fun t j => ?_⟩
    rw [entry_set]
    split
    · rename_i here
      rw [here.1, here.2, (gains_or_mappingFlags _ user).link?_eq used]
    · rfl
  · obtain ⟨-, held, -⟩ := FrameReserve.allocate_some orderly taken
    refine .inr ⟨f, unused, taken, rfl, fun t j apart => ?_, fun j => ?_⟩
    · rw [entry_clearTable, if_neg apart, entry_set, apply_ite link?,
        link?_entryFor (orderly.small f held)]
    · rw [entry_clearTable, if_pos rfl]
  · exact .inl ⟨rfl, fun _ _ => rfl⟩

end PageTable

/-- Mapping a page is a matter of the tables and the reserve. -/
theorem PagingMachine.map_of_mapPage {u v : PagingMachine} {space : AddressSpace} {page : Page}
    {frame : Frame} {user : Bool} {answer : Except MapError Unit}
    (h : mapPage space page frame user u = (answer, v)) :
    PageTable.map (rootOf space) page frame (PageTable.mappingFlags user) u.tables u.reserve =
      (answer, v.tables, v.reserve) ∧ v.root = u.root := by
  rcases run : PageTable.map (rootOf space) page frame (PageTable.mappingFlags user) u.tables
    u.reserve with ⟨result, tables, reserve⟩
  obtain ⟨rfl, rfl⟩ : result = answer ∧ { u with tables, reserve } = v := by
    simpa [mapPage, mapWith, run] using h
  exact ⟨rfl, rfl⟩

end KernelCore
