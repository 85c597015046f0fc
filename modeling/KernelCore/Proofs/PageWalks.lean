import KernelCore.PagingMachine

/-!
# What a walk finds

The processor translates an address by a walk through the tables: every entry on the way must be
present, an entry for a large page ends the walk early, and ring 3 gets through only if every entry
that is met lets it. Entries that gain flags which a mapping passes on lead where they led before,
so such gains keep every translation, but they can let ring 3 through.
-/
namespace KernelCore
namespace PageTable

/-- Ring 3 may use what lies below the entry. -/
def isUser (e : UInt64) : Bool := e &&& userFlag != 0

/-- The table that preparing an entry leads to. Other than on a walk of the processor the entry need
not be present, since it becomes so. -/
def link? (e : UInt64) : Option Frame := if e = 0 ∨ isHuge e then none else some (frameOf e)

/-- Where the entries lie that preparing the way to a page meets. -/
def places (m : PhysicalMemory) (page : Page) : (below : Nat) → (table : Frame) →
    List (Frame × Fin tableLength)
  | 0, table => [(table, index page 0)]
  | below + 1, table =>
    (table, index page (below + 1)) ::
      match link? (m.entry table (index page (below + 1))) with
      | some table => places m page below table
      | none => []

/-- The memory that one entry maps, `below` levels above the last. -/
def reachOf (below : Nat) : Nat := pageSize <<< (indexBits * below)

/-- The physical address of `a`, which the entry maps. -/
def physical (e : UInt64) (below a : Nat) : Nat :=
  (frameOf e).start / reachOf below * reachOf below + a % reachOf below

/-- Where the processor finds an address below a table. An entry of the root maps no page. -/
def translateBelow (m : PhysicalMemory) (a : Nat) : (below : Nat) → (table : Frame) → Option Nat
  | 0, table =>
    let e := m.entry table (index (.containing a) 0)
    if isPresent e then some (physical e 0 a) else none
  | below + 1, table =>
    let e := m.entry table (index (.containing a) (below + 1))
    if isPresent e then
      if isHuge e then if below + 1 < depth then some (physical e (below + 1) a) else none
      else translateBelow m a below (frameOf e)
    else none

/-- An entry with more of the flags that a mapping passes on. -/
def Gains (e e' : UInt64) : Prop := ∃ flags, e' = e ||| (flags &&& parentMask)

theorem or_and_distrib (e x mask : UInt64) : (e ||| x) &&& mask = e &&& mask ||| x &&& mask := by
  apply UInt64.toNat_inj.mp
  simp only [UInt64.toNat_and, UInt64.toNat_or]
  exact Nat.and_or_distrib_right ..

theorem flags_and (flags : UInt64) {mask : UInt64} (apart : parentMask &&& mask = 0) :
    (flags &&& parentMask) &&& mask = 0 := by
  rw [UInt64.and_assoc, apart, UInt64.and_zero]

/-- A word that names a frame has no bit outside the address. -/
theorem ofNat_start_and {f : Frame} (small : f.start < physicalLimit) :
    UInt64.ofNat f.start &&& addressMask = UInt64.ofNat f.start := by
  apply UInt64.toNat_inj.mp
  have word : (UInt64.ofNat f.start).toNat = f.number <<< 12 := by
    rw [UInt64.toNat_ofNat', Nat.mod_eq_of_lt (Nat.lt_trans small (by decide)), Frame.start, Nat.shiftLeft_eq]
    rfl
  have mask : addressMask.toNat = (2 ^ 40 - 1) <<< 12 := rfl
  have number : f.number < 2 ^ 40 := by
    unfold Frame.start pageSize physicalLimit at small
    omega
  rw [UInt64.toNat_and, word, mask, ← Nat.shiftLeft_and_distrib,
    Nat.and_two_pow_sub_one_of_lt_two_pow number]

theorem frameOf_entryFor {f : Frame} (small : f.start < physicalLimit) {flags : UInt64}
    (plain : flags &&& addressMask = 0) : frameOf (entryFor f flags) = f := by
  have word : (UInt64.ofNat f.start).toNat = f.start := by
    rw [UInt64.toNat_ofNat', Nat.mod_eq_of_lt (Nat.lt_trans small (by decide))]
  rw [frameOf, entryFor, or_and_distrib, plain, UInt64.or_zero, ofNat_start_and small, word,
    Frame.containing_start]

namespace Gains

variable {e e' e'' : UInt64}

theorem refl (e : UInt64) : Gains e e := ⟨0, by rw [UInt64.zero_and, UInt64.or_zero]⟩

theorem trans (h : Gains e e') (h' : Gains e' e'') : Gains e e'' := by
  obtain ⟨flags, rfl⟩ := h
  obtain ⟨more, rfl⟩ := h'
  exact ⟨flags ||| more, by rw [or_and_distrib, UInt64.or_assoc]⟩

theorem ne_zero (h : Gains e e') (used : e ≠ 0) : e' ≠ 0 := by
  obtain ⟨flags, rfl⟩ := h
  exact fun zero => used (UInt64.or_eq_zero_iff.mp zero).1

theorem frameOf_eq (h : Gains e e') : frameOf e' = frameOf e := by
  obtain ⟨flags, rfl⟩ := h
  rw [frameOf, or_and_distrib, flags_and flags rfl, UInt64.or_zero, frameOf]

theorem isHuge_eq (h : Gains e e') : isHuge e' = isHuge e := by
  obtain ⟨flags, rfl⟩ := h
  rw [isHuge, or_and_distrib, flags_and flags rfl, UInt64.or_zero, isHuge]

theorem isPresent (h : Gains e e') (present : isPresent e) : isPresent e' := by
  obtain ⟨flags, rfl⟩ := h
  rw [PageTable.isPresent, bne_iff_ne, or_and_distrib] at *
  exact fun zero => present (UInt64.or_eq_zero_iff.mp zero).1

theorem isUser (h : Gains e e') (user : isUser e) : isUser e' := by
  obtain ⟨flags, rfl⟩ := h
  rw [PageTable.isUser, bne_iff_ne, or_and_distrib] at *
  exact fun zero => user (UInt64.or_eq_zero_iff.mp zero).1

theorem link?_eq (h : Gains e e') (used : e ≠ 0) : link? e' = link? e := by
  simp only [link?, h.isHuge_eq, h.frameOf_eq, used, h.ne_zero used]

theorem physical_eq (h : Gains e e') (below a : Nat) :
    physical e' below a = physical e below a := by
  rw [physical, h.frameOf_eq, physical]

end Gains

theorem ne_zero_of_isPresent {e : UInt64} (present : isPresent e) : e ≠ 0 := by
  rintro rfl
  exact absurd present (by decide)

theorem link?_of_isPresent {e : UInt64} (present : isPresent e) (plain : isHuge e = false) :
    link? e = some (frameOf e) := by
  rw [link?, if_neg (by simp [ne_zero_of_isPresent present, plain])]

theorem link?_of_isHuge {e : UInt64} (huge : isHuge e) : link? e = none := by
  rw [link?, if_pos (.inr huge)]

theorem next?_eq_link? {e : UInt64} (present : isPresent e) : next? e = link? e := by
  cases huge : isHuge e with
  | false => simp [next?, link?_of_isPresent present huge, present, huge]
  | true => simp [next?, link?_of_isHuge huge, huge]

theorem next?_eq_some {e : UInt64} {f : Frame} (h : next? e = some f) :
    isPresent e ∧ isHuge e = false ∧ frameOf e = f := by
  rw [next?, Option.ite_none_right_eq_some, Bool.and_eq_true, Bool.not_eq_true'] at h
  exact ⟨h.1.1, h.1.2, Option.some.inj h.2⟩

theorem link?_of_next? {e : UInt64} {f : Frame} (h : next? e = some f) : link? e = some f := by
  obtain ⟨present, plain, rfl⟩ := next?_eq_some h
  exact link?_of_isPresent present plain

theorem Gains.next?_eq {e e' : UInt64} {f : Frame} (h : Gains e e') (leads : next? e = some f) :
    next? e' = some f := by
  have present := h.isPresent (next?_eq_some leads).1
  have used := ne_zero_of_isPresent (next?_eq_some leads).1
  rw [next?_eq_link? present, h.link?_eq used, link?_of_next? leads]

theorem link?_eq_some {e : UInt64} {f : Frame} (h : link? e = some f) :
    e ≠ 0 ∧ isHuge e = false ∧ frameOf e = f := by
  rw [link?] at h
  split at h
  · exact absurd h nofun
  · rename_i plain
    rw [not_or, Bool.not_eq_true] at plain
    exact ⟨plain.1, plain.2, Option.some.inj h⟩

section Places

variable {m : PhysicalMemory} {page : Page} {below : Nat} {table f : Frame}

theorem places_of_link (h : link? (m.entry table (index page (below + 1))) = some f) :
    places m page (below + 1) table = (table, index page (below + 1)) :: places m page below f := by
  rw [places, h]

theorem places_of_no_link (h : link? (m.entry table (index page (below + 1))) = none) :
    places m page (below + 1) table = [(table, index page (below + 1))] := by
  rw [places, h]

end Places

section Translated

variable {m m' : PhysicalMemory} {a pa below : Nat} {table : Frame}

/-- Where an address is found, the walk either goes on below the entry or ends at a large page. -/
theorem translateBelow_succ {e : UInt64}
    (he : m.entry table (index (.containing a) (below + 1)) = e) :
    translateBelow m a (below + 1) table = some pa ↔ isPresent e ∧
      ((isHuge e = false ∧ translateBelow m a below (frameOf e) = some pa) ∨
        (isHuge e ∧ below + 1 < depth ∧ physical e (below + 1) a = pa)) := by
  subst he
  rw [translateBelow, Option.ite_none_right_eq_some]
  refine and_congr_right fun _ => ?_
  cases huge : isHuge (m.entry table (index (.containing a) (below + 1))) with
  | false => simp
  | true => simp [Option.ite_none_right_eq_some]

/-- An address is found by a walk on which every entry is present. -/
theorem isPresent_of_mem_places (found : translateBelow m a below table = some pa) {f : Frame}
    {i : Fin tableLength} (met : (f, i) ∈ places m (.containing a) below table) :
    isPresent (m.entry f i) := by
  induction below generalizing table with
  | zero =>
    obtain ⟨rfl, rfl⟩ := Prod.mk.inj (List.mem_singleton.mp met)
    rw [translateBelow] at found
    exact (Option.ite_none_right_eq_some.mp found).1
  | succ below ih =>
    obtain ⟨present, ⟨plain, rest⟩ | ⟨huge, -, -⟩⟩ := (translateBelow_succ rfl).mp found
    · rw [places_of_link (link?_of_isPresent present plain), List.mem_cons] at met
      obtain here | met := met
      · obtain ⟨rfl, rfl⟩ := Prod.mk.inj here
        exact present
      · exact ih rest met
    · rw [places_of_no_link (link?_of_isHuge huge), List.mem_singleton] at met
      obtain ⟨rfl, rfl⟩ := Prod.mk.inj met
      exact present

theorem walk_eq_map_places (found : translateBelow m a below table = some pa) :
    walk m (.containing a) below table =
      (places m (.containing a) below table).map fun x => m.entry x.1 x.2 := by
  induction below generalizing table with
  | zero => rfl
  | succ below ih =>
    obtain ⟨present, ⟨plain, rest⟩ | ⟨huge, -, -⟩⟩ := (translateBelow_succ rfl).mp found
    · have link := link?_of_isPresent present plain
      rw [places_of_link link, walk, List.map_cons, ← ih rest]
      simp only [next?_eq_link? present, link]
    · have link := link?_of_isHuge huge
      rw [places_of_no_link link, walk, List.map_singleton]
      simp only [next?_eq_link? present, link]

/-- A walk whose entries have only gained flags ends where it ended. -/
theorem translateBelow_gains (found : translateBelow m a below table = some pa)
    (gains : ∀ f i, (f, i) ∈ places m (.containing a) below table →
      Gains (m.entry f i) (m'.entry f i)) :
    translateBelow m' a below table = some pa ∧
      places m' (.containing a) below table = places m (.containing a) below table := by
  induction below generalizing table with
  | zero =>
    have here := gains _ _ (List.mem_singleton.mpr rfl)
    rw [translateBelow] at found
    obtain ⟨present, address⟩ := Option.ite_none_right_eq_some.mp found
    refine ⟨?_, rfl⟩
    rw [translateBelow]
    exact Option.ite_none_right_eq_some.mpr
      ⟨here.isPresent present, by rw [here.physical_eq, address]⟩
  | succ below ih =>
    have here := gains _ _ (List.mem_cons_self ..)
    obtain ⟨present, ⟨plain, rest⟩ | ⟨huge, upper, rfl⟩⟩ := (translateBelow_succ rfl).mp found
    · have link := link?_of_isPresent present plain
      have link' := (here.link?_eq (ne_zero_of_isPresent present)).trans link
      rw [places_of_link link] at gains ⊢
      obtain ⟨same, sames⟩ := ih rest fun f i met => gains f i (List.mem_cons_of_mem _ met)
      rw [places_of_link link', sames]
      exact ⟨(translateBelow_succ rfl).mpr ⟨here.isPresent present,
        .inl ⟨here.isHuge_eq.trans plain, here.frameOf_eq ▸ same⟩⟩, rfl⟩
    · have link := link?_of_isHuge huge
      have link' := (here.link?_eq (ne_zero_of_isPresent present)).trans link
      rw [places_of_no_link link, places_of_no_link link']
      exact ⟨(translateBelow_succ rfl).mpr ⟨here.isPresent present,
        .inr ⟨here.isHuge_eq.trans huge, upper, here.physical_eq ..⟩⟩, rfl⟩

end Translated

end PageTable

namespace PagingMachine

/-- The physical address of a virtual one, if it is mapped in the space. -/
def translate (m : PagingMachine) (space : AddressSpace) (a : Nat) : Option Nat :=
  PageTable.translateBelow m.tables a PageTable.depth (rootOf space)

/-- Every entry on the walk to an address lets ring 3 through. -/
def userReaches (m : PagingMachine) (space : AddressSpace) (a : Nat) : Bool :=
  (m.walk space (.containing a)).all PageTable.isUser

/-- Where the entries lie that preparing the way to a page meets, the root table's first. -/
def places (m : PagingMachine) (space : AddressSpace) (page : Page) :
    List (Frame × Fin tableLength) :=
  PageTable.places m.tables page PageTable.depth (rootOf space)

theorem userReaches_iff {m : PagingMachine} {space : AddressSpace} {a pa : Nat}
    (found : m.translate space a = some pa) : m.userReaches space a ↔
      ∀ f i, (f, i) ∈ m.places space (.containing a) → PageTable.isUser (m.tables.entry f i) := by
  rw [userReaches, walk, PageTable.walk_eq_map_places found, List.all_map, List.all_eq_true]
  exact ⟨fun all f i met => all (f, i) met, fun all x met => all x.1 x.2 met⟩

end PagingMachine
end KernelCore
