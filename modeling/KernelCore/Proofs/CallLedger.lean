import KernelCore.Proofs.MappedMemory

/-!
# What calls take and give back

The calls that a watched machine has seen, read as an account of frames. Mapping pages to fresh
frames takes one frame for each page, and if it fails, all that it took is given back and every page
of every space is mapped as before: the frame of the page that failed goes back at once, those of
the pages before it when they are taken out again.
-/
namespace KernelCore

namespace Call

/-- The frame that the call has taken. -/
def taken? : Call → Option Frame
  | .allocateFrame f => f
  | _ => none

def givenBack? : Call → Option Frame
  | .releaseFrame f => some f
  | _ => none

/-- The page that the call was to map, with its space and whether ring 3 may use it. -/
def mapped? : Call → Option (AddressSpace × Page × Bool)
  | .mapPage space page _ user => some (space, page, user)
  | _ => none

/-- The call stores bytes in memory. -/
def isStore : Call → Bool
  | .zeroRange .. | .copyIn .. => true
  | _ => false

/-- The call has to do with filling memory, or notes something. -/
def fills : Call → Bool
  | .zeroRange .. | .copyIn .. | .unreachable _ | .note _ => true
  | _ => false

end Call

/-- The frames that the calls have taken, the first one first. -/
def taken (calls : List Call) : List Frame := calls.filterMap Call.taken?

def givenBack (calls : List Call) : List Frame := calls.filterMap Call.givenBack?

/-- The pages that the calls were to map. -/
def mappedPages (calls : List Call) : List (AddressSpace × Page × Bool) :=
  calls.filterMap Call.mapped?

@[simp] theorem taken_append (calls more : List Call) :
    taken (calls ++ more) = taken calls ++ taken more := List.filterMap_append

@[simp] theorem givenBack_append (calls more : List Call) :
    givenBack (calls ++ more) = givenBack calls ++ givenBack more := List.filterMap_append

@[simp] theorem mappedPages_append (calls more : List Call) :
    mappedPages (calls ++ more) = mappedPages calls ++ mappedPages more := List.filterMap_append

/-- The calls that map these pages, each to a fresh frame. -/
def freshCalls (space : AddressSpace) (user : Bool) (entries : List (Page × Frame)) : List Call :=
  entries.flatMap fun e => [.allocateFrame (some e.2), .mapPage space e.1 e.2 user]

section FreshCalls

variable (space : AddressSpace) (user : Bool) (entries : List (Page × Frame))

theorem filterMap_freshCalls {α : Type} {f : Call → Option α} {g : Page × Frame → List α}
    (h : ∀ e, [Call.allocateFrame (some e.2), .mapPage space e.1 e.2 user].filterMap f = g e) :
    (freshCalls space user entries).filterMap f = entries.flatMap g := by
  rw [freshCalls, List.filterMap_flatMap]
  exact congrArg (entries.flatMap ·) (funext h)

theorem taken_freshCalls : taken (freshCalls space user entries) = entries.map Prod.snd :=
  (filterMap_freshCalls space user entries fun _ => rfl).trans List.map_eq_flatMap.symm

theorem givenBack_freshCalls : givenBack (freshCalls space user entries) = [] :=
  (filterMap_freshCalls space user entries fun _ => rfl).trans
    (List.flatMap_eq_nil_iff.mpr fun _ _ => rfl)

theorem mappedPages_freshCalls : mappedPages (freshCalls space user entries) =
    entries.map fun e => (space, e.1, user) :=
  (filterMap_freshCalls space user entries fun _ => rfl).trans List.map_eq_flatMap.symm

end FreshCalls

variable {π : Type} [Platform π] [LawfulMemory π]

/-- These calls were made on the way from one state to another. They stored nothing, so only the
frames that they took may hold other bytes. -/
structure Quiet (t u : Traced π) (made : List Call) : Prop where
  calls : u.calls = t.calls ++ made
  stores : ∀ c ∈ made, c.isStore = false
  contents : ∀ f, f ∉ taken made → (mappedMemory u).contents f = (mappedMemory t).contents f

namespace Quiet

theorem refl (t : Traced π) : Quiet t t [] where
  calls := (List.append_nil _).symm
  stores := nofun
  contents _ _ := rfl

theorem trans {t u v : Traced π} {made more : List Call} (h : Quiet t u made)
    (h' : Quiet u v more) : Quiet t v (made ++ more) where
  calls := by rw [h'.calls, h.calls, List.append_assoc]
  stores c hc := (List.mem_append.mp hc).elim (h.stores c) (h'.stores c)
  contents f hf := by
    rw [taken_append, List.mem_append, not_or] at hf
    exact (h'.contents f hf.2).trans (h.contents f hf.1)

end Quiet

theorem filterMap_of_fills {α : Type} {f : Call → Option α}
    (skips : ∀ c, c.fills = true → f c = none) {made : List Call}
    (h : ∀ c ∈ made, c.fills = true) : made.filterMap f = [] :=
  List.filterMap_eq_nil_iff.mpr fun c hc => skips c (h c hc)

/-- These calls filled memory on the way from one state to another. -/
structure Fills (t u : Traced π) (made : List Call) : Prop where
  calls : u.calls = t.calls ++ made
  plain : ∀ c ∈ made, c.fills = true
  backing : (mappedMemory u).backing = (mappedMemory t).backing

namespace Fills

theorem refl (t : Traced π) : Fills t t [] where
  calls := (List.append_nil _).symm
  plain := nofun
  backing := rfl

theorem trans {t u v : Traced π} {made more : List Call} (h : Fills t u made)
    (h' : Fills u v more) : Fills t v (made ++ more) where
  calls := by rw [h'.calls, h.calls, List.append_assoc]
  plain c hc := (List.mem_append.mp hc).elim (h.plain c) (h'.plain c)
  backing := h'.backing.trans h.backing

variable {t u : Traced π} {made : List Call}

theorem taken_eq (h : Fills t u made) : taken made = [] := by
  refine filterMap_of_fills (fun c hc => ?_) h.plain
  cases c <;> first | rfl | cases hc

theorem givenBack_eq (h : Fills t u made) : givenBack made = [] := by
  refine filterMap_of_fills (fun c hc => ?_) h.plain
  cases c <;> first | rfl | cases hc

theorem mappedPages_eq (h : Fills t u made) : mappedPages made = [] := by
  refine filterMap_of_fills (fun c hc => ?_) h.plain
  cases c <;> first | rfl | cases hc

end Fills

omit [LawfulMemory π] in
theorem fills_transfer {c : Call} (h : c.fills = true) (stop : Option Nat) :
    ∀ d ∈ Traced.transfer c stop, d.fills = true := by
  intro d hd
  cases stop with
  | none => exact List.mem_singleton.mp hd ▸ h
  | some a =>
    rcases List.mem_cons.mp hd with rfl | hd
    · exact h
    · exact List.mem_singleton.mp hd ▸ rfl

theorem fills_zeroRange (a length : Nat) (t : Traced π) :
    Fills t (zeroRange a length t).2
      (Traced.transfer (.zeroRange a length) (zeroRange a length t).1) where
  calls := t.calls_record _ _
  plain := fills_transfer rfl _
  backing := LawfulMemory.backing_zeroRange a length t

theorem fills_copyIn (a : Nat) (bytes : Array UInt8) (t : Traced π) :
    Fills t (copyIn a bytes t).2 (Traced.transfer (.copyIn a bytes.size) (copyIn a bytes t).1) where
  calls := t.calls_record _ _
  plain := fills_transfer rfl _
  backing := LawfulMemory.backing_copyIn a bytes t

theorem fills_note (n : Notice) (t : Traced π) : Fills t (note n t) [.note n] where
  calls := t.calls_record _ _
  plain := by simp [Call.fills]
  backing := by rw [LawfulMemory.note]

/-- The calls made on the way from one state to a later one. -/
def callsBetween (t u : Traced π) : List Call := u.calls.drop t.calls.length

omit [Platform π] [LawfulMemory π] in
theorem callsBetween_eq {t u : Traced π} {made : List Call} (h : u.calls = t.calls ++ made) :
    callsBetween t u = made := by
  rw [callsBetween, h, List.drop_left]

/-- The frames taken on the way are all different, and no page was mapped to any of them. -/
structure FreshFrames (t u : Traced π) : Prop where
  once : (taken (callsBetween t u)).Nodup
  unused : ∀ f ∈ taken (callsBetween t u), ∀ space page b,
    (mappedMemory t).backing space page = some b → b.frame ≠ f

/-- All that the calls have taken is given back, each frame as often as it was taken and no other
frame, and every page of every space is mapped as before. -/
structure Undone (t u : Traced π) (made : List Call) : Prop extends Quiet t u made where
  balanced : (givenBack made).Perm (taken made)
  backing : (mappedMemory u).backing = (mappedMemory t).backing

namespace Undone

theorem refl (t : Traced π) : Undone t t [] := ⟨.refl t, .nil, rfl⟩

theorem trans {t u v : Traced π} {made more : List Call} (h : Undone t u made)
    (h' : Undone u v more) : Undone t v (made ++ more) where
  toQuiet := h.toQuiet.trans h'.toQuiet
  balanced := by
    rw [givenBack_append, taken_append]
    exact h.balanced.append h'.balanced
  backing := h'.backing.trans h.backing

end Undone

variable {space : AddressSpace} {page : Page} {f : Frame} {user : Bool} {t u : Traced π}

theorem quiet_allocateFrame (t : Traced π) :
    Quiet t (allocateFrame t).2 [.allocateFrame (allocateFrame t).1] where
  calls := t.calls_record _ _
  stores := by simp [Call.isStore]
  contents f hf := by
    refine (LawfulMemory.allocateFrame t).2 f fun h => hf ?_
    simp [taken, Call.taken?, h]

theorem quiet_releaseFrame (f : Frame) (t : Traced π) :
    Quiet t (releaseFrame f t).2 [.releaseFrame f] where
  calls := t.calls_record _ _
  stores := by simp [Call.isStore]
  contents _ _ := by rw [LawfulMemory.releaseFrame]

theorem undone_note (n : Notice) (t : Traced π) : Undone t (note n t) [.note n] where
  calls := t.calls_record _ _
  stores := by simp [Call.isStore]
  contents _ _ := by rw [LawfulMemory.note]
  balanced := .nil
  backing := by rw [LawfulMemory.note]

theorem undone_activate (space : AddressSpace) (t : Traced π) :
    Undone t (activate space t) [.activate space] where
  calls := t.calls_record _ _
  stores := by simp [Call.isStore]
  contents _ _ := by rw [LawfulMemory.activate]
  balanced := .nil
  backing := by rw [LawfulMemory.activate]

theorem quiet_mapPage {r : Except MapError Unit} (h : mapPage space page f user t = (r, u)) :
    Quiet t u [.mapPage space page f user] where
  calls := by
    have hu : u = (mapPage space page f user t).2 := congrArg Prod.snd h.symm
    rw [hu]
    exact t.calls_record _ _
  stores := by simp [Call.isStore]
  contents _ _ := by
    cases r with
    | ok _ => rw [(LawfulMemory.mapPage_ok h).2]
    | error e => rw [LawfulMemory.mapPage_error h]

theorem quiet_unmapPage (space : AddressSpace) (page : Page) (t : Traced π) :
    Quiet t (unmapPage space page t).2 [.unmapPage space page] where
  calls := t.calls_record _ _
  stores := by simp [Call.isStore]
  contents _ _ := by rw [(LawfulMemory.unmapPage space page t).2]

/-- A frame is given back once, whether or not there is room to keep it. -/
theorem quiet_giveBack (f : Frame) (t : Traced π) :
    ∃ made, Quiet t (giveBack f t) made ∧ taken made = [] ∧ givenBack made = [f] ∧
      (mappedMemory (giveBack f t)).backing = (mappedMemory t).backing := by
  have released := quiet_releaseFrame f t
  have same : mappedMemory (releaseFrame f t).2 = mappedMemory t := LawfulMemory.releaseFrame f t
  rw [giveBack]
  rcases hr : releaseFrame f t with ⟨_ | dropped, v⟩
  · rw [hr] at released same
    exact ⟨_, released, rfl, rfl, congrArg MappedMemory.backing same⟩
  · rw [hr] at released same
    refine ⟨_, released.trans (undone_note _ v).toQuiet, rfl, rfl, ?_⟩
    rw [noteDropped, LawfulMemory.note]
    exact congrArg MappedMemory.backing same

theorem mapFresh_ok (h : mapFresh space page user t = (.ok (), u)) :
    ∃ f, Quiet t u [.allocateFrame (some f), .mapPage space page f user] ∧
      (mappedMemory t).backing space page = none ∧
      (mappedMemory u).backing = (mappedMemory t).setBacking space page (some ⟨f, user⟩) := by
  have first := quiet_allocateFrame t
  have same := (LawfulMemory.allocateFrame t).1
  rw [mapFresh] at h
  rcases ha : allocateFrame t with ⟨_ | f, v⟩
  · rw [ha] at h
    cases h
  · rw [ha] at h first same
    dsimp only at h first same
    split at h
    · rename_i w hm
      cases h
      obtain ⟨free, hw⟩ := LawfulMemory.mapPage_ok hm
      refine ⟨f, first.trans (quiet_mapPage hm), ?_, ?_⟩
      · rw [← same]
        exact free
      · rw [hw]
        unfold MappedMemory.setBacking
        rw [same]
    · cases h

theorem mapFresh_error {e : Option MapError} (h : mapFresh space page user t = (.error e, u)) :
    ∃ made, Undone t u made := by
  have first := quiet_allocateFrame t
  have same := (LawfulMemory.allocateFrame t).1
  rw [mapFresh] at h
  rcases ha : allocateFrame t with ⟨_ | f, v⟩
  · rw [ha] at h first same
    cases h
    exact ⟨_, first, .nil, same⟩
  · rw [ha] at h first same
    dsimp only at h first same
    split at h
    · cases h
    · rename_i cause w hm
      cases h
      obtain ⟨made, back, none, one, still⟩ := quiet_giveBack f w
      refine ⟨_, (first.trans (quiet_mapPage hm)).trans back, ?_, ?_⟩
      · rw [taken_append, givenBack_append, none, one]
        exact .refl _
      · rw [still, LawfulMemory.mapPage_error hm, same]

/-- Pages that are mapped are taken out, and the frames that they were mapped to are given back. -/
theorem quiet_unmapAndFree {entries : List (Page × Frame)} (t : Traced π)
    (nodup : (entries.map Prod.fst).Nodup)
    (backed : ∀ e ∈ entries, (mappedMemory t).backing space e.1 = some ⟨e.2, user⟩) :
    ∃ made, Quiet t (unmapAndFree space (entries.map Prod.fst) t) made ∧ taken made = [] ∧
      givenBack made = entries.map Prod.snd ∧
      ∀ s page, (mappedMemory (unmapAndFree space (entries.map Prod.fst) t)).backing s page =
        if s = space ∧ page ∈ entries.map Prod.fst then none
        else (mappedMemory t).backing s page := by
  induction entries generalizing t with
  | nil => exact ⟨[], .refl t, rfl, rfl, fun s page => by simp [unmapAndFree]⟩
  | cons e entries ih =>
    obtain ⟨fresh, nodup⟩ := List.nodup_cons.mp nodup
    have first := quiet_unmapPage space e.1 t
    obtain ⟨hframe, hv⟩ := LawfulMemory.unmapPage space e.1 t
    rw [backed e List.mem_cons_self] at hframe
    rcases hu : unmapPage space e.1 t with ⟨r, v⟩
    rw [hu] at first hframe hv
    dsimp only at first hframe hv
    obtain ⟨made, back, none, one, still⟩ := quiet_giveBack e.2 v
    rw [hv] at still
    dsimp only at still
    have backed' : ∀ d ∈ entries,
        (mappedMemory (giveBack e.2 v)).backing space d.1 = some ⟨d.2, user⟩ := by
      intro d hd
      have hne : d.1 ≠ e.1 := fun h => fresh (h ▸ List.mem_map_of_mem hd)
      rw [still, MappedMemory.setBacking_other _ _ fun h => hne h.2]
      exact backed d (List.mem_cons_of_mem _ hd)
    obtain ⟨more, rest, none', frames, cleared⟩ := ih (giveBack e.2 v) nodup backed'
    have hstep : unmapAndFree space ((e :: entries).map Prod.fst) t =
        unmapAndFree space (entries.map Prod.fst) (giveBack e.2 v) := by
      rw [List.map_cons, unmapAndFree, hu, hframe]
      rfl
    rw [hstep]
    refine ⟨_, (first.trans back).trans rest, ?_, ?_, ?_⟩
    · rw [taken_append, taken_append, none, none']
      rfl
    · rw [givenBack_append, givenBack_append, one, frames]
      rfl
    · intro s q
      rw [cleared, still, MappedMemory.setBacking]
      simp only [List.map_cons, List.mem_cons]
      by_cases hs : s = space <;> by_cases hq : q = e.1 <;>
        simp only [hs, hq, true_and, false_and, true_or, false_or, if_true, if_false, ite_self]

omit [Platform π] [LawfulMemory π] in
/-- Pages that are mapped to different frames are mapped apart. -/
theorem MappedMemory.separate_of_backed {m : MappedMemory} {entries : List (Page × Frame)}
    (backed : ∀ e ∈ entries, m.backing space e.1 = some ⟨e.2, user⟩)
    (once : (entries.map Prod.snd).Nodup) : m.Separate space (· ∈ entries.map Prod.fst) where
  mapped page hp := by
    obtain ⟨e, he, rfl⟩ := List.mem_map.mp hp
    exact ⟨_, backed e he⟩
  apart hp hp' hb hb' hframe := by
    obtain ⟨e, he, rfl⟩ := List.mem_map.mp hp
    obtain ⟨e', he', rfl⟩ := List.mem_map.mp hp'
    rw [backed e he] at hb
    rw [backed e' he'] at hb'
    cases hb
    cases hb'
    exact congrArg Prod.fst (List.inj_on_of_nodup_map once he he' hframe)

/-- Since `t`, these pages have been mapped to these frames, and nothing else was called. -/
structure Grown (space : AddressSpace) (user : Bool) (t u : Traced π)
    (entries : List (Page × Frame)) : Prop where
  quiet : Quiet t u (freshCalls space user entries)
  nodup : (entries.map Prod.fst).Nodup
  free : ∀ e ∈ entries, (mappedMemory t).backing space e.1 = none
  backed : ∀ e ∈ entries, (mappedMemory u).backing space e.1 = some ⟨e.2, user⟩
  others : ∀ s page, ¬ (s = space ∧ page ∈ entries.map Prod.fst) →
    (mappedMemory u).backing s page = (mappedMemory t).backing s page

namespace Grown

theorem refl (space : AddressSpace) (user : Bool) (t : Traced π) : Grown space user t t [] where
  quiet := .refl t
  nodup := .nil
  free := nofun
  backed := nofun
  others _ _ _ := rfl

/-- What was mapped before is not among the new pages. -/
theorem kept {entries : List (Page × Frame)} (h : Grown space user t u entries) {s : AddressSpace}
    {q : Page} {b : Backing} (hb : (mappedMemory t).backing s q = some b) :
    (mappedMemory u).backing s q = some b := by
  rw [h.others s q]
  · exact hb
  · rintro ⟨rfl, hp⟩
    obtain ⟨e, he, rfl⟩ := List.mem_map.mp hp
    rw [h.free e he] at hb
    cases hb

/-- One more page. -/
theorem mapFresh {entries : List (Page × Frame)} (h : Grown space user t u entries)
    {v : Traced π} (hm : mapFresh space page user u = (.ok (), v)) :
    ∃ f, Grown space user t v (entries ++ [(page, f)]) := by
  obtain ⟨f, quiet, free, hv⟩ := mapFresh_ok hm
  have fresh : page ∉ entries.map Prod.fst := by
    intro hp
    obtain ⟨e, he, rfl⟩ := List.mem_map.mp hp
    rw [h.backed e he] at free
    cases free
  have still {s : AddressSpace} {q : Page} (hne : ¬ (s = space ∧ q = page)) :
      (mappedMemory v).backing s q = (mappedMemory u).backing s q := by
    rw [hv, MappedMemory.setBacking_other _ _ hne]
  refine ⟨f, ?_, ?_, ?_, ?_, ?_⟩
  · rw [freshCalls, List.flatMap_append]
    exact h.quiet.trans quiet
  · rw [List.map_append]
    refine List.nodup_append.mpr ⟨h.nodup, List.nodup_singleton _, ?_⟩
    rintro q hq _ hr rfl
    obtain rfl : q = page := List.mem_singleton.mp hr
    exact fresh hq
  · intro e he
    rcases List.mem_append.mp he with he | he
    · exact h.free e he
    · obtain rfl := List.mem_singleton.mp he
      rw [← h.others space page fun hp => fresh hp.2]
      exact free
  · intro e he
    rcases List.mem_append.mp he with he | he
    · have hne : e.1 ≠ page := fun hp => fresh (hp ▸ List.mem_map_of_mem he)
      rw [still fun hp => hne hp.2]
      exact h.backed e he
    · obtain rfl := List.mem_singleton.mp he
      rw [hv, MappedMemory.setBacking_self]
  · intro s q hq
    rw [List.map_append, List.mem_append, List.map_singleton, List.mem_singleton] at hq
    rw [still fun hp => hq ⟨hp.1, .inr hp.2⟩]
    exact h.others s q fun hp => hq ⟨hp.1, .inl hp.2⟩

/-- If no frame was taken twice, each page has a frame of its own. -/
theorem separate {entries : List (Page × Frame)} (h : Grown space user t u entries)
    (once : (entries.map Prod.snd).Nodup) :
    (mappedMemory u).Separate space (· ∈ entries.map Prod.fst) :=
  MappedMemory.separate_of_backed h.backed once

/-- Taking the pages out again leads back, as far as mappings go. -/
theorem undone {entries : List (Page × Frame)} (h : Grown space user t u entries) {v : Traced π}
    (same : (mappedMemory v).backing = (mappedMemory u).backing) :
    ∃ made, Quiet v (unmapAndFree space (entries.map Prod.fst) v) made ∧ taken made = [] ∧
      givenBack made = entries.map Prod.snd ∧
      (mappedMemory (unmapAndFree space (entries.map Prod.fst) v)).backing =
        (mappedMemory t).backing := by
  obtain ⟨made, quiet, none, frames, cleared⟩ :=
    quiet_unmapAndFree v h.nodup (by rw [same]; exact h.backed)
  refine ⟨made, quiet, none, frames, ?_⟩
  funext s page
  rw [cleared, same]
  split
  · rename_i hp
    obtain ⟨e, he, rfl⟩ := List.mem_map.mp hp.2
    rw [hp.1, h.free e he]
  · rename_i hp
    exact h.others s page hp

end Grown

section MapAllFresh

variable {keep : Traced π → Page → Bool} {pages mapped : List Page}
  {entries : List (Page × Frame)} {v : Traced π}

theorem mapAllFresh_ok (h : Grown space user t u entries)
    (hm : mapAllFresh space user keep pages mapped u = (.ok (), v)) :
    ∃ more, Grown space user t v (entries ++ more) ∧
      ((∀ r page, keep r page = false) → more.map Prod.fst = pages) := by
  induction pages generalizing mapped u entries with
  | nil =>
    cases hm
    exact ⟨[], by rwa [List.append_nil], fun _ => rfl⟩
  | cons page pages ih =>
    rw [mapAllFresh] at hm
    split at hm
    · rename_i hkeep
      obtain ⟨more, grown, -⟩ := ih h hm
      refine ⟨more, grown, fun never => ?_⟩
      rw [never] at hkeep
      cases hkeep
    · split at hm
      · rename_i w hw
        obtain ⟨f, grown⟩ := h.mapFresh hw
        obtain ⟨more, grown, all⟩ := ih grown hm
        refine ⟨(page, f) :: more, ?_, fun never => ?_⟩
        · rwa [List.append_assoc] at grown
        · rw [List.map_cons, all never]
      · cases hm

/-- If pages that are mapped are kept, exactly the other ones have been mapped. -/
theorem mapAllFresh_ok_keeping (h : Grown space user t u entries)
    (hm : mapAllFresh space user (fun r page => isMapped r space page) pages mapped u =
      (.ok (), v)) :
    ∃ more, Grown space user t v (entries ++ more) ∧ (∀ page ∈ more.map Prod.fst, page ∈ pages) ∧
      ∀ page ∈ pages, page ∈ (entries ++ more).map Prod.fst ∨ isMapped t space page = true := by
  induction pages generalizing mapped u entries with
  | nil =>
    cases hm
    exact ⟨[], by rwa [List.append_nil], nofun, nofun⟩
  | cons page pages ih =>
    rw [mapAllFresh] at hm
    split at hm
    · rename_i there
      obtain ⟨more, grown, sub, all⟩ := ih h hm
      refine ⟨more, grown, fun q hq => List.mem_cons_of_mem _ (sub q hq), ?_⟩
      refine List.forall_mem_cons.mpr ⟨?_, all⟩
      by_cases early : page ∈ entries.map Prod.fst
      · rw [List.map_append]
        exact .inl (List.mem_append_left _ early)
      · rw [LawfulMemory.isMapped_eq, h.others space page fun hp => early hp.2] at there
        exact .inr (by rwa [LawfulMemory.isMapped_eq])
    · split at hm
      · rename_i w hw
        obtain ⟨f, grown⟩ := h.mapFresh hw
        obtain ⟨more, grown, sub, all⟩ := ih grown hm
        rw [List.append_assoc, List.singleton_append] at grown all
        refine ⟨(page, f) :: more, grown, ?_, ?_⟩
        · intro q hq
          rcases List.mem_cons.mp hq with rfl | hq
          · exact List.mem_cons_self
          · exact List.mem_cons_of_mem _ (sub q hq)
        · exact List.forall_mem_cons.mpr ⟨.inl (by simp), all⟩
      · cases hm

/-- If a page cannot be mapped, all that was done since the first page is undone. -/
theorem mapAllFresh_error {e : Option MapError} (h : Grown space user t u entries)
    (order : mapped.reverse = entries.map Prod.fst)
    (hm : mapAllFresh space user keep pages mapped u = (.error e, v)) :
    ∃ made, Undone t v made := by
  induction pages generalizing mapped u entries with
  | nil => cases hm
  | cons page pages ih =>
    rw [mapAllFresh] at hm
    split at hm
    · exact ih h order hm
    · split at hm
      · rename_i w hw
        obtain ⟨f, grown⟩ := h.mapFresh hw
        refine ih grown ?_ hm
        rw [List.reverse_cons, List.map_append, order]
        rfl
      · rename_i cause w hw
        cases hm
        -- The page that failed has given its frame back, the pages before it are taken out now.
        obtain ⟨failed, hf⟩ := mapFresh_error hw
        obtain ⟨undone, back, none, frames, restored⟩ := h.undone hf.backing
        rw [← order] at back restored
        refine ⟨_, (h.quiet.trans hf.toQuiet).trans back, ?_, restored⟩
        rw [taken_append, taken_append, givenBack_append, givenBack_append, none, frames,
          taken_freshCalls, givenBack_freshCalls, List.append_nil, List.nil_append]
        exact (hf.balanced.append_right _).trans List.perm_append_comm

end MapAllFresh

end KernelCore
