import KernelCore.Proofs.LawfulPlatform
import Mathlib.Data.List.Nodup

/-!
# Mapped memory

Memory as programs see it: which pages of which spaces are mapped, to which frames, and what the
frames hold. `LawfulMemory` says what each call of a machine does to it: only `mapPage` and
`unmapPage` change a mapping, each that of its own page, and only a store changes the bytes of a
frame that was handed out before. The flat machine obeys this, whether or not its calls fail at
given moments and whether or not it is watched. Of the paging machine `TreelikeLoads` says what is
left of it for a load into one space.
-/
namespace KernelCore

namespace Page

theorem containing_eq_iff {a : Nat} {page : Page} :
    containing a = page ↔ page.start ≤ a ∧ a < page.start + pageSize := by
  cases page with
  | mk number =>
    simp only [containing, start, mk.injEq, pageSize]
    omega

theorem start_containing_add (a : Nat) : (containing a).start + a % pageSize = a :=
  Nat.div_add_mod' a pageSize

theorem containing_start_add (page : Page) {o : Nat} (h : o < pageSize) :
    containing (page.start + o) = page :=
  containing_eq_iff.mpr ⟨Nat.le_add_right _ _, Nat.add_lt_add_left h _⟩

end Page

theorem mem_pagesTouched {a length : Nat} {page : Page} :
    page ∈ pagesTouched a length ↔ ∃ x, a ≤ x ∧ x < a + length ∧ Page.containing x = page := by
  simp only [pagesTouched, pagesFrom, pageCount, List.mem_map, List.mem_range'_1, pageSize]
  constructor
  · rintro ⟨n, hn, rfl⟩
    split at hn
    · omega
    · refine ⟨max a (n * 4096), by omega, by omega, ?_⟩
      simp only [Page.containing, Page.mk.injEq, pageSize]
      omega
  · rintro ⟨x, hax, hx, rfl⟩
    refine ⟨x / 4096, ?_, rfl⟩
    split <;> omega

theorem mem_pagesTouched_of_le {a k n : Nat} (h : k ≤ n) {page : Page}
    (hp : page ∈ pagesTouched a k) : page ∈ pagesTouched a n := by
  obtain ⟨x, hax, hx, rfl⟩ := mem_pagesTouched.mp hp
  exact mem_pagesTouched.mpr ⟨x, hax, by omega, rfl⟩

theorem nodup_pagesTouched (a length : Nat) : (pagesTouched a length).Nodup :=
  List.Nodup.map (fun _ _ h => Page.mk.inj h) List.nodup_range'

/-- What a page is mapped to. -/
structure Backing where
  frame : Frame
  /-- Ring 3 may use the page. -/
  user : Bool
  deriving DecidableEq, Repr

/-- The mappings of all spaces and the bytes of all frames. -/
structure MappedMemory where
  backing : AddressSpace → Page → Option Backing
  contents : Frame → ByteMemory

namespace MappedMemory

/-- The byte that is read at an address of a space. -/
def byte (m : MappedMemory) (space : AddressSpace) (a : Nat) : Option UInt8 :=
  (m.backing space (.containing a)).map fun b => (m.contents b.frame).byte (a % pageSize)

def setBacking (m : MappedMemory) (space : AddressSpace) (page : Page) (b : Option Backing) :
    AddressSpace → Page → Option Backing :=
  fun s q => if s = space ∧ q = page then b else m.backing s q

@[simp] theorem setBacking_self (m : MappedMemory) (space : AddressSpace) (page : Page)
    (b : Option Backing) : m.setBacking space page b space page = b := if_pos ⟨rfl, rfl⟩

theorem setBacking_other (m : MappedMemory) {space s : AddressSpace} {page q : Page}
    (b : Option Backing) (h : ¬ (s = space ∧ q = page)) :
    m.setBacking space page b s q = m.backing s q := if_neg h

/-- These pages of a space are mapped, each to a frame of its own. -/
structure Separate (m : MappedMemory) (space : AddressSpace) (pages : Page → Prop) : Prop where
  mapped : ∀ page, pages page → ∃ b, m.backing space page = some b
  apart : ∀ {page page' b b'}, pages page → pages page' → m.backing space page = some b →
    m.backing space page' = some b' → b.frame = b'.frame → page = page'

theorem Separate.mono {m : MappedMemory} {space : AddressSpace} {pages pages' : Page → Prop}
    (h : m.Separate space pages) (sub : ∀ page, pages' page → pages page) :
    m.Separate space pages' where
  mapped page hp := h.mapped page (sub page hp)
  apart hp hp' := h.apart (sub _ hp) (sub _ hp')

/-- The `length` bytes from `a` on in a space have been replaced, and no others. -/
structure Stored (m m' : MappedMemory) (space : AddressSpace) (a length : Nat)
    (content : Nat → UInt8) : Prop where
  backing : m'.backing = m.backing
  inside : ∀ x, a ≤ x → x < a + length → m'.byte space x = some (content (x - a))
  outside : ∀ f o, o < pageSize →
    (∀ page b, m.backing space page = some b → b.frame = f →
      ¬ (a ≤ page.start + o ∧ page.start + o < a + length)) →
    (m'.contents f).byte o = (m.contents f).byte o

section Stored

variable {m m' m'' : MappedMemory} {space : AddressSpace} {a n k : Nat}
  {content start : Nat → UInt8}

theorem Separate.congr {pages : Page → Prop} (h : m.Separate space pages)
    (same : m'.backing = m.backing) : m'.Separate space pages where
  mapped := same ▸ h.mapped
  apart := same ▸ h.apart

/-- Out of the range a store leaves the bytes of all pages that are mapped apart. -/
theorem Stored.byte_outside {pages : Page → Prop} (h : m.Stored m' space a n content)
    (sep : m.Separate space pages) (touched : ∀ page ∈ pagesTouched a n, pages page) {x : Nat}
    (hx : pages (.containing x)) (out : ¬ (a ≤ x ∧ x < a + n)) :
    m'.byte space x = m.byte space x := by
  have hmod : x % pageSize < pageSize := Nat.mod_lt _ (by decide)
  obtain ⟨b, hb⟩ := sep.mapped _ hx
  rw [byte, byte, h.backing, hb]
  refine congrArg some (h.outside b.frame (x % pageSize) hmod fun page b' hb' hframe range => ?_)
  -- A page of the range that lies in the same frame is the page of `x` itself.
  have hpage : page ∈ pagesTouched a n :=
    mem_pagesTouched.mpr ⟨_, range.1, range.2, page.containing_start_add hmod⟩
  obtain rfl := sep.apart (touched page hpage) hx hb' hb hframe
  rw [Page.start_containing_add] at range
  exact out range

/-- A second store that replaces the first bytes of a range again. -/
theorem Stored.overwrite (h : m.Stored m' space a n content) (h' : m'.Stored m'' space a k start)
    (hk : k ≤ n) (sep : m.Separate space (· ∈ pagesTouched a n)) :
    m.Stored m'' space a n fun i => if i < k then start i else content i where
  backing := h'.backing.trans h.backing
  inside x hax hx := by
    by_cases hxk : x < a + k
    · rw [h'.inside x hax hxk, if_pos (by omega)]
    · have touched : ∀ page ∈ pagesTouched a k, page ∈ pagesTouched a n :=
        fun _ => mem_pagesTouched_of_le hk
      have hpage := mem_pagesTouched.mpr ⟨x, hax, hx, rfl⟩
      rw [h'.byte_outside (sep.congr h.backing) touched hpage fun range => hxk range.2,
        h.inside x hax hx, if_neg (by omega)]
  outside f o ho out := by
    refine (h'.outside f o ho fun page b hb hf range => ?_).trans (h.outside f o ho out)
    rw [h.backing] at hb
    exact out page b hb hf ⟨range.1, by omega⟩

end Stored

end MappedMemory

/-- A machine that keeps mapped memory as it should. This is the contract of the platform that the
loader and the process table are written against. The paging machine does not meet it in general:
its spaces share tables, so a page mapped in one of them can show in another, and a page for ring 3
opens the way to its neighbours. -/
class LawfulMemory (π : Type) [Platform π] where
  mappedMemory : π → MappedMemory
  isMapped_eq (p : π) (space : AddressSpace) (page : Page) :
    isMapped p space page = ((mappedMemory p).backing space page).isSome
  /-- Only the frame that is handed out may change its bytes. -/
  allocateFrame (p : π) :
    (mappedMemory (allocateFrame p).2).backing = (mappedMemory p).backing ∧
      ∀ f, (allocateFrame p).1 ≠ some f →
        (mappedMemory (allocateFrame p).2).contents f = (mappedMemory p).contents f
  releaseFrame (f : Frame) (p : π) : mappedMemory (releaseFrame f p).2 = mappedMemory p
  activate (space : AddressSpace) (p : π) : mappedMemory (activate space p) = mappedMemory p
  note (n : Notice) (p : π) : mappedMemory (note n p) = mappedMemory p
  mapPage_ok {space : AddressSpace} {page : Page} {f : Frame} {user : Bool} {p q : π}
    (h : mapPage space page f user p = (.ok (), q)) :
    (mappedMemory p).backing space page = none ∧
      mappedMemory q = { mappedMemory p with
        backing := (mappedMemory p).setBacking space page (some ⟨f, user⟩) }
  mapPage_error {space : AddressSpace} {page : Page} {f : Frame} {user : Bool} {p q : π}
    {e : MapError} (h : mapPage space page f user p = (.error e, q)) :
    mappedMemory q = mappedMemory p
  unmapPage (space : AddressSpace) (page : Page) (p : π) :
    (unmapPage space page p).1 = ((mappedMemory p).backing space page).map Backing.frame ∧
      mappedMemory (unmapPage space page p).2 = { mappedMemory p with
        backing := (mappedMemory p).setBacking space page none }
  backing_zeroRange (a length : Nat) (p : π) :
    (mappedMemory (zeroRange a length p).2).backing = (mappedMemory p).backing
  backing_copyIn (a : Nat) (bytes : Array UInt8) (p : π) :
    (mappedMemory (copyIn a bytes p).2).backing = (mappedMemory p).backing
  zeroRange {a length : Nat} {p : π}
    (h : (mappedMemory p).Separate (activeSpace p) (· ∈ pagesTouched a length)) :
    (zeroRange a length p).1 = none ∧
      (mappedMemory p).Stored (mappedMemory (zeroRange a length p).2) (activeSpace p) a length
        fun _ => 0
  copyIn {a : Nat} {bytes : Array UInt8} {p : π}
    (h : (mappedMemory p).Separate (activeSpace p) (· ∈ pagesTouched a bytes.size)) :
    (copyIn a bytes p).1 = none ∧
      (mappedMemory p).Stored (mappedMemory (copyIn a bytes p).2) (activeSpace p) a bytes.size
        fun i => bytes.getD i 0

export LawfulMemory (mappedMemory)

namespace FlatMachine

/-- The mappings and the frames of a flat machine. -/
def memoryMap (m : FlatMachine) : MappedMemory where
  backing space page := (m.lookup space page).map fun e => ⟨e.frame, e.user⟩
  contents := m.contents

theorem memoryMap_takeFrame (m : FlatMachine) :
    m.takeFrame.2.memoryMap.backing = m.memoryMap.backing ∧
      ∀ f, m.takeFrame.1 ≠ some f →
        m.takeFrame.2.memoryMap.contents f = m.memoryMap.contents f := by
  rw [takeFrame]
  split
  · exact ⟨rfl, fun _ _ => rfl⟩
  · refine ⟨rfl, fun f hf => ?_⟩
    exact m.contents_setContents_other _ fun e => hf (congrArg some e.symm)

theorem mappings_countFault (m : FlatMachine) :
    m.countFault.2.mappings = m.mappings ∧ m.countFault.2.stored = m.stored := by
  rw [countFault]
  split <;> exact ⟨rfl, rfl⟩

theorem memoryMap_congr {m m' : FlatMachine} (mappings : m'.mappings = m.mappings)
    (stored : m'.stored = m.stored) : m'.memoryMap = m.memoryMap := by
  unfold memoryMap lookup contents
  rw [mappings, stored]

theorem memoryMap_addMapping_error {space : AddressSpace} {page : Page} {f : Frame} {user : Bool}
    {m m' : FlatMachine} {e : MapError} (h : addMapping space page f user m = (.error e, m')) :
    m'.memoryMap = m.memoryMap := by
  obtain ⟨mappings, stored⟩ := m.mappings_countFault
  rw [addMapping] at h
  split at h <;> rename_i hc <;> rw [hc] at mappings stored
  · cases h
    exact memoryMap_congr mappings stored
  · split at h <;> cases h
    exact memoryMap_congr mappings stored

theorem memoryMap_addMapping_ok {space : AddressSpace} {page : Page} {f : Frame} {user : Bool}
    {m m' : FlatMachine} (h : addMapping space page f user m = (.ok (), m')) :
    m.memoryMap.backing space page = none ∧ m'.memoryMap = { m.memoryMap with
      backing := m.memoryMap.setBacking space page (some ⟨f, user⟩) } := by
  have found := lookup_addMapping (congrArg Prod.fst h)
  have others {s : AddressSpace} {q : Page} (hs : ¬ (s = space ∧ q = page)) :
      (addMapping space page f user m).2.lookup s q = m.lookup s q := lookup_addMapping_other hs
  rw [h] at found others
  obtain ⟨free, stored⟩ : m.lookup space page = none ∧ m'.stored = m.stored := by
    obtain ⟨mappings, stored⟩ := m.mappings_countFault
    rw [addMapping] at h
    split at h <;> rename_i hc <;> rw [hc] at mappings stored
    · cases h
    · split at h
      · cases h
      · rename_i hfree
        cases h
        refine ⟨?_, stored⟩
        rw [lookup, ← mappings]
        simpa [lookup] using hfree
  have unmapped : m.memoryMap.backing space page = none := by
    dsimp only [memoryMap]
    rw [free]
    rfl
  refine ⟨unmapped, ?_⟩
  unfold memoryMap MappedMemory.setBacking contents
  rw [stored]
  congr 1
  funext s q
  split
  · rename_i hs
    rw [hs.1, hs.2, found]
    rfl
  · rename_i hs
    rw [others hs]

theorem memoryMap_removeMapping (space : AddressSpace) (page : Page) (m : FlatMachine) :
    (removeMapping space page m).2.memoryMap = { m.memoryMap with
      backing := m.memoryMap.setBacking space page none } := by
  unfold memoryMap MappedMemory.setBacking
  congr 1
  funext s q
  split
  · rename_i hs
    rw [hs.1, hs.2, lookup_removeMapping]
    rfl
  · rename_i hs
    rw [lookup_removeMapping_other m hs]

section Store

variable {a length : Nat} {content : Nat → UInt8}

theorem memoryMap_storePages_backing (pages : List Page) (m : FlatMachine) :
    (storePages a length content pages m).2.memoryMap.backing = m.memoryMap.backing := by
  induction pages generalizing m with
  | nil => rfl
  | cons page pages ih =>
    rw [storePages]
    split
    · rfl
    · exact ih _

theorem contents_storePages_other {pages : List Page} (m : FlatMachine) {f : Frame} {o : Nat}
    (h : ∀ page ∈ pages, ∀ e, m.lookup m.active page = some e → e.frame = f →
      ¬ (a ≤ page.start + o ∧ page.start + o < a + length)) :
    ((storePages a length content pages m).2.contents f).byte o = (m.contents f).byte o := by
  induction pages generalizing m with
  | nil => rfl
  | cons page pages ih =>
    rw [storePages]
    split
    · rfl
    · rename_i e he
      have hrest := ih (m.setContents e.frame (overlay page a length content (m.contents e.frame)))
        fun q hq => h q (List.mem_cons_of_mem _ hq)
      refine hrest.trans ?_
      by_cases hf : e.frame = f
      · have out := h page List.mem_cons_self e he hf
        rw [hf, contents_setContents_self, overlay]
        exact if_neg out
      · rw [contents_setContents_other _ _ (Ne.symm hf)]

theorem storePages_reaches {pages : List Page} {m : FlatMachine}
    (h : ∀ page ∈ pages, ∃ e, m.lookup m.active page = some e) :
    (storePages a length content pages m).1 = none := by
  induction pages generalizing m with
  | nil => rfl
  | cons page pages ih =>
    obtain ⟨e, he⟩ := h page List.mem_cons_self
    rw [storePages, he]
    exact ih fun q hq => h q (List.mem_cons_of_mem _ hq)

theorem contents_storePages {pages : List Page} {m : FlatMachine} {page : Page} {e : Mapping}
    {o : Nat} (mapped : ∀ q ∈ pages, ∃ e, m.lookup m.active q = some e) (nodup : pages.Nodup)
    (apart : ∀ q ∈ pages, ∀ e', m.lookup m.active q = some e' → e'.frame = e.frame → q = page)
    (hp : page ∈ pages) (he : m.lookup m.active page = some e)
    (range : a ≤ page.start + o ∧ page.start + o < a + length) :
    ((storePages a length content pages m).2.contents e.frame).byte o =
      content (page.start + o - a) := by
  induction pages generalizing m with
  | nil => cases hp
  | cons q pages ih =>
    obtain ⟨fresh, nodup⟩ := List.nodup_cons.mp nodup
    have apart' := fun r hr => apart r (List.mem_cons_of_mem _ hr)
    rcases List.mem_cons.mp hp with rfl | hp
    · rw [storePages, he]
      -- No later page lies in the same frame.
      refine (contents_storePages_other _ ?_).trans ?_
      · intro r hr e' he' hframe
        obtain rfl := apart' r hr e' he' hframe
        exact absurd hr fresh
      · rw [contents_setContents_self, overlay]
        exact if_pos range
    · obtain ⟨e', he'⟩ := mapped q List.mem_cons_self
      rw [storePages, he']
      exact ih (fun r hr => mapped r (List.mem_cons_of_mem _ hr)) nodup apart' hp he

theorem storeThrough_stored {m : FlatMachine}
    (h : m.memoryMap.Separate m.active (· ∈ pagesTouched a length)) :
    (m.storeThrough a length content).1 = none ∧
      m.memoryMap.Stored (m.storeThrough a length content).2.memoryMap m.active a length
        content := by
  have mapped : ∀ q ∈ pagesTouched a length, ∃ e, m.lookup m.active q = some e := by
    intro q hq
    obtain ⟨b, hb⟩ := h.mapped q hq
    obtain ⟨e, he, -⟩ := Option.map_eq_some_iff.mp hb
    exact ⟨e, he⟩
  refine ⟨storePages_reaches mapped, memoryMap_storePages_backing _ m, ?_, ?_⟩
  · intro x hax hx
    have hp : Page.containing x ∈ pagesTouched a length := mem_pagesTouched.mpr ⟨x, hax, hx, rfl⟩
    obtain ⟨e, he⟩ := mapped _ hp
    have backed {q : Page} {e' : Mapping} (h : m.lookup m.active q = some e') :
        m.memoryMap.backing m.active q = some ⟨e'.frame, e'.user⟩ := congrArg (Option.map _) h
    have apart : ∀ q ∈ pagesTouched a length, ∀ e', m.lookup m.active q = some e' →
        e'.frame = e.frame → q = Page.containing x :=
      fun q hq e' he' hf => h.apart hq hp (backed he') (backed he) hf
    have hx' := Page.start_containing_add x
    rw [MappedMemory.byte, storeThrough, memoryMap_storePages_backing, backed he]
    refine congrArg some ((contents_storePages mapped (nodup_pagesTouched a length) apart hp he
      (by rw [hx']; exact ⟨hax, hx⟩)).trans ?_)
    rw [hx']
  · intro f o _ out
    apply contents_storePages_other m
    intro page _ e he hf
    exact out page ⟨e.frame, e.user⟩ (congrArg (Option.map _) he) hf

end Store

instance : LawfulMemory FlatMachine where
  mappedMemory := memoryMap
  isMapped_eq m space page := by
    change (m.lookup space page).isSome = _
    simp [memoryMap]
  allocateFrame := memoryMap_takeFrame
  releaseFrame _ _ := rfl
  activate _ _ := rfl
  note _ _ := rfl
  mapPage_ok := memoryMap_addMapping_ok
  mapPage_error := memoryMap_addMapping_error
  unmapPage space page m := by
    refine ⟨?_, memoryMap_removeMapping space page m⟩
    change (m.lookup space page).map Mapping.frame = _
    simp only [memoryMap, Option.map_map]
    rfl
  backing_zeroRange _ _ m := memoryMap_storePages_backing _ m
  backing_copyIn _ _ m := memoryMap_storePages_backing _ m
  zeroRange := storeThrough_stored
  copyIn := storeThrough_stored

end FlatMachine

variable {π : Type} [Platform π] [LawfulMemory π]

omit [Platform π] [LawfulMemory π] in
theorem Faulty.attempt_cases {α : Type} (m : Faulty π) (failed : MapError → α) (call : π → α × π) :
    (∃ e, m.attempt failed call = (failed e, { m with count := m.count + 1 })) ∨
      m.attempt failed call = ((call m.machine).1,
        { m with machine := (call m.machine).2, count := m.count + 1 }) := by
  rw [attempt]
  split
  · exact .inl ⟨_, rfl⟩
  · exact .inr rfl

instance : LawfulMemory (Faulty π) where
  mappedMemory m := mappedMemory m.machine
  isMapped_eq m := LawfulMemory.isMapped_eq m.machine
  allocateFrame m := by
    have hm : KernelCore.allocateFrame m = m.attempt (fun _ => none) KernelCore.allocateFrame := rfl
    rw [hm]
    rcases m.attempt_cases (fun _ => none) KernelCore.allocateFrame with ⟨e, h⟩ | h
    · rw [h]
      exact ⟨rfl, fun _ _ => rfl⟩
    · rw [h]
      exact LawfulMemory.allocateFrame m.machine
  releaseFrame f m := LawfulMemory.releaseFrame f m.machine
  activate space m := LawfulMemory.activate space m.machine
  note n m := LawfulMemory.note n m.machine
  mapPage_ok {space page f user m _} h := by
    change m.attempt .error (KernelCore.mapPage space page f user) = _ at h
    rcases m.attempt_cases .error (KernelCore.mapPage space page f user) with ⟨e, hc⟩ | hc
    · cases hc.symm.trans h
    · obtain ⟨hr, hm⟩ := Prod.mk.inj (hc.symm.trans h)
      cases hm
      exact LawfulMemory.mapPage_ok (Prod.ext hr rfl)
  mapPage_error {space page f user m _ _} h := by
    change m.attempt .error (KernelCore.mapPage space page f user) = _ at h
    rcases m.attempt_cases .error (KernelCore.mapPage space page f user) with ⟨e, hc⟩ | hc
    · cases hc.symm.trans h
      rfl
    · obtain ⟨hr, hm⟩ := Prod.mk.inj (hc.symm.trans h)
      cases hm
      exact LawfulMemory.mapPage_error (Prod.ext hr rfl)
  unmapPage space page m := LawfulMemory.unmapPage space page m.machine
  backing_zeroRange a length m := LawfulMemory.backing_zeroRange a length m.machine
  backing_copyIn a bytes m := LawfulMemory.backing_copyIn a bytes m.machine
  zeroRange h := LawfulMemory.zeroRange (π := π) h
  copyIn h := LawfulMemory.copyIn (π := π) h

omit [LawfulMemory π] in
/-- Watching a call does not change what it answers and does. -/
theorem Traced.machine_mapPage {space : AddressSpace} {page : Page} {f : Frame} {user : Bool}
    {t u : Traced π} {r : Except MapError Unit} (h : mapPage space page f user t = (r, u)) :
    mapPage space page f user t.machine = (r, u.machine) := by
  have answer : (mapPage space page f user t).1 = r := congrArg Prod.fst h
  have machine : (mapPage space page f user t).2.machine = u.machine :=
    congrArg (fun c => c.2.machine) h
  exact Prod.ext answer machine

instance : LawfulMemory (Traced π) where
  mappedMemory t := mappedMemory t.machine
  isMapped_eq t := LawfulMemory.isMapped_eq t.machine
  allocateFrame t := LawfulMemory.allocateFrame t.machine
  releaseFrame f t := LawfulMemory.releaseFrame f t.machine
  activate space t := LawfulMemory.activate space t.machine
  note n t := LawfulMemory.note n t.machine
  mapPage_ok h := LawfulMemory.mapPage_ok (Traced.machine_mapPage h)
  mapPage_error h := LawfulMemory.mapPage_error (Traced.machine_mapPage h)
  unmapPage space page t := LawfulMemory.unmapPage space page t.machine
  backing_zeroRange a length t := LawfulMemory.backing_zeroRange a length t.machine
  backing_copyIn a bytes t := LawfulMemory.backing_copyIn a bytes t.machine
  zeroRange h := LawfulMemory.zeroRange (π := π) h
  copyIn h := LawfulMemory.copyIn (π := π) h

end KernelCore
