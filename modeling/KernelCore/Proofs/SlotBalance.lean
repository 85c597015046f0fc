import KernelCore.Proofs.HandleLifetimes
import Mathlib.Algebra.GroupWithZero.Nat
import Mathlib.Data.Fintype.Card
import Mathlib.Order.Bounds.Basic

/-!
# Slots taken and freed

A process takes a slot when it is added and leaves it when it is reaped, and nothing else takes or
frees a slot. So in every state the processes in the table are the kernel's own and those added,
less those reaped. A new process comes into the first free slot, and reaping frees the slots of all
processes that have exited, as the running one never has.
-/
namespace KernelCore

namespace ProcessTable

/-- The slots with a process. -/
def occupied (t : ProcessTable) : Finset (Fin maxProcesses) := {s | (t.slots s).isSome}

/-- The slots that could be freed. -/
def reapables (t : ProcessTable) : Finset (Fin maxProcesses) := {s | t.reapable s}

theorem card_filter_slots (P : Fin maxProcesses → Bool) :
    ({s | P s} : Finset (Fin maxProcesses)).card = (List.finRange maxProcesses).countP P := by
  rw [Fin.univ_def, List.countP_eq_length_filter]
  simp [Finset.card, Finset.filter]

theorem mem_occupied {t : ProcessTable} {s : Fin maxProcesses} :
    s ∈ t.occupied ↔ ∃ q, t.slots s = some q := by
  simp [occupied, Option.isSome_iff_exists]

theorem length_processes (t : ProcessTable) : t.processes.length = t.occupied.card := by
  rw [processes, List.length_filterMap_eq_countP, occupied, card_filter_slots]
  simp

theorem occupied_new (space : AddressSpace) : (new space).occupied = {kernelSlot} := by
  ext s
  rw [mem_occupied, slots_new]
  simp

theorem occupied_added (t : ProcessTable) (slot : Fin maxProcesses) (q : Process) :
    (t.added slot q).occupied = insert slot t.occupied := by
  ext s
  rw [Finset.mem_insert, mem_occupied, mem_occupied, slots_added]
  split <;> simp [*]

theorem not_mem_occupied {t : ProcessTable} {s : Fin maxProcesses} (free : t.slots s = none) :
    s ∉ t.occupied := by
  simp [mem_occupied, free]

theorem freeSlot?_eq_none_iff {t : ProcessTable} :
    t.freeSlot? = none ↔ t.processes.length = maxProcesses := by
  have full : t.occupied = Finset.univ ↔ t.occupied.card = maxProcesses := by
    rw [← Finset.card_eq_iff_eq_univ, Fintype.card_fin]
  rw [length_processes, ← full, Finset.eq_univ_iff_forall, freeSlot?, List.find?_eq_none]
  simp [occupied, Option.isSome_iff_ne_none]

/-- The first free slot has nothing but processes before it. -/
theorem isLeast_of_freeSlot? {t : ProcessTable} {slot : Fin maxProcesses}
    (found : t.freeSlot? = some slot) : IsLeast {s | t.slots s = none} slot := by
  obtain ⟨-, i, inside, here, before⟩ := List.find?_eq_some_iff_getElem.mp found
  have place : i = slot.val := by
    rw [← here, List.getElem_finRange]
    rfl
  refine ⟨slots_freeSlot found, fun s free => ?_⟩
  by_contra earlier
  have taken := before s.val (by omega)
  rw [List.getElem_finRange] at taken
  change (!(t.slots s).isNone) = true at taken
  rw [show t.slots s = none from free] at taken
  cases taken

section Reap

variable {π : Type} [Platform π]

theorem reap_fst (t : ProcessTable) (p : π) : (t.reap p).1 = t.reapables.card := by
  rw [reapables, card_filter_slots, List.countP_eq_length_filter]
  rfl

theorem occupied_reap (t : ProcessTable) (p : π) :
    (t.reap p).2.1.occupied = t.occupied \ t.reapables := by
  ext s
  simp only [Finset.mem_sdiff, mem_occupied, slots_reap, reapables, Finset.mem_filter,
    Finset.mem_univ, true_and]
  split <;> simp [*]

theorem reapables_subset (t : ProcessTable) : t.reapables ⊆ t.occupied := by
  intro s
  simp only [reapables, Finset.mem_filter, Finset.mem_univ, true_and, mem_occupied, reapable,
    stateOf, Bool.and_eq_true, beq_iff_eq, Option.map_eq_some_iff]
  rintro ⟨-, q, hq, -⟩
  exact ⟨q, hq⟩

/-- The running process has not exited. -/
theorem Controlled.reapable_iff {t : ProcessTable} (controlled : Controlled t)
    {s : Fin maxProcesses} : t.reapable s = true ↔ t.stateOf s = some .exited := by
  simp only [reapable, Bool.and_eq_true, decide_eq_true_eq, beq_iff_eq, and_iff_right_iff_imp]
  rintro exited rfl
  obtain ⟨q, hq, running⟩ := controlled.current_running
  rw [stateOf, hq, Option.map_some, running] at exited
  cases exited

end Reap

/-- No number is left, or no slot is. -/
theorem create_tableFull_iff {π : Type} [Platform π] (t : ProcessTable) (name : String)
    (entry : Nat) (userland : Bool) (p : π) :
    (t.create name entry userland p).1 = .error .tableFull ↔
      t.processes.length = maxProcesses ∨ pidLimit ≤ t.nextPid := by
  rw [← freeSlot?_eq_none_iff, create]
  cases free : t.freeSlot? with
  | none => simp
  | some slot =>
    by_cases number : pidLimit ≤ t.nextPid
    · simp [number]
    · simp only [number, if_false, reduceCtorEq, or_self, iff_false]
      intro refused
      split at refused
      · cases refused
      · split at refused
        · cases refused
        · split at refused <;> cases refused

end ProcessTable

/-- Number of the slots that a call frees. -/
def Answer.freed : Answer → Nat
  | .reaped count => count
  | .created _ | .prepared _ | .loaded _ | .exited _ | .resumed _ => 0

namespace TableState

open ProcessTable

variable {π : Type} [Platform π] {s t u : TableState π} {op : Operation} {a : Answer}
  {history : List (Event π)}

/-- Number of the processes that the calls add. -/
def additions (history : List (Event π)) : Nat := history.countP fun e => e.answer.issued.isSome

/-- Number of the slots that the calls free. -/
def freedSlots (history : List (Event π)) : Nat := (history.map fun e => e.answer.freed).sum

theorem Effect.freed_eq_zero (effect : Effect s op a u) (other : op ≠ .reap) : a.freed = 0 := by
  cases effect with
  | reaped => exact absurd rfl other
  | _ => rfl

/-- No process leaves its slot but by reaping. -/
theorem Effect.occupied_subset (effect : Effect s op a u) (other : op ≠ .reap) :
    s.table.occupied ⊆ u.table.occupied := by
  intro slot here
  obtain ⟨q, hq⟩ := mem_occupied.mp here
  rcases effect.persists hq with ⟨reaps, -⟩ | ⟨_, _, still⟩
  · exact absurd reaps other
  · exact mem_occupied.mpr ⟨_, still⟩

/-- A process comes into a slot exactly if it is added. -/
theorem Effect.occupied_cases (effect : Effect s op a u) (other : op ≠ .reap) :
    (a.issued = none ∧ u.table.occupied = s.table.occupied) ∨
    ∃ slot, slot ∉ s.table.occupied ∧ a.issued.isSome ∧
      u.table.occupied = insert slot s.table.occupied := by
  rcases effect.descends_or_added with ⟨down, number⟩ | ⟨slot, q, free, -, -, -, added⟩
  · have none : a.issued = none := by
      rcases effect.issued_cases with ⟨none, -⟩ | ⟨h, -, -, -, more⟩
      · exact none
      · omega
    have back : u.table.occupied ⊆ s.table.occupied := by
      intro slot here
      obtain ⟨r, hr⟩ := mem_occupied.mp here
      obtain ⟨q, hq, -⟩ := down hr
      exact mem_occupied.mpr ⟨q, hq⟩
    exact .inl ⟨none, back.antisymm (effect.occupied_subset other)⟩
  · have some : a.issued.isSome := by
      rcases effect.issued_cases with ⟨-, same⟩ | ⟨h, some, -⟩
      · rw [added] at same
        exact absurd same (Nat.succ_ne_self _)
      · rw [some]
        rfl
    exact .inr ⟨slot, not_mem_occupied free, some, added ▸ occupied_added _ _ _⟩

/-- A call that adds a process takes a slot for it. Only reaping frees slots. -/
theorem Effect.balance (effect : Effect s op a u) :
    u.table.occupied.card + a.freed =
      s.table.occupied.card + if a.issued.isSome then 1 else 0 := by
  by_cases reaps : op = .reap
  · subst reaps
    cases effect
    rw [occupied_reap, Answer.freed, reap_fst]
    exact Finset.card_sdiff_add_card_eq_card s.table.reapables_subset
  · rw [effect.freed_eq_zero reaps]
    rcases effect.occupied_cases reaps with ⟨none, same⟩ | ⟨slot, free, some, grown⟩
    · rw [none, same]
      rfl
    · rw [if_pos some, grown, Finset.card_insert_of_notMem free, Nat.add_zero]

theorem balance_run (run : Run s history u) (coherent : Coherent s.table) :
    u.table.occupied.card + freedSlots history = s.table.occupied.card + additions history := by
  induction run with
  | refl => rfl
  | @step history t op a u run last ih =>
    have one := (effect_of_coherent (run.coherent coherent) last).balance
    simp only [freedSlots, additions, List.map_append, List.sum_append, List.countP_append,
      List.map_cons, List.map_nil, List.sum_cons, List.sum_nil, List.countP_singleton] at ih ⊢
    omega

/-- A process that is added comes into the first free slot, and all others stay as they are. -/
theorem create_takes {name : String} {entry : Nat} {userland : Bool} {h : ProcessHandle}
    (step : Step s (.create name entry userland) (.created (.ok h)) t) :
    IsLeast {slot | s.table.slots slot = none} h.slot ∧ (∃ q, t.table.get h = .ok q) ∧
      ∀ slot ≠ h.slot, t.table.slots slot = s.table.slots slot := by
  obtain ⟨-, q, live, -⟩ := founds_create step
  have effect := effect_create s name entry userland
  rw [step.1] at effect
  cases effect with
  | created free =>
    exact ⟨isLeast_of_freeSlot? free, ⟨q, live⟩, fun slot other =>
      (slots_added _ _ _ _).trans (if_neg other)⟩

/-- All slots of processes that have exited are freed, and only these. -/
theorem perform_reap (controlled : Controlled s.table) :
    ∃ t, s.perform .reap = (.reaped (s.table.countIn (some .exited)), t) ∧
      ∀ slot, t.table.slots slot =
        if s.table.stateOf slot = some .exited then none else s.table.slots slot := by
  have count : (s.table.reap s.machine).1 = s.table.countIn (some .exited) := by
    rw [reap_fst, reapables, card_filter_slots, countIn]
    apply List.countP_congr
    intro slot _
    rw [controlled.reapable_iff, decide_eq_true_eq]
  refine ⟨⟨(s.table.reap s.machine).2.1, (s.table.reap s.machine).2.2⟩, ?_, fun slot => ?_⟩
  · rw [← count]
    rfl
  · simp only [slots_reap, controlled.reapable_iff]

/-- In every state the processes in the table are the kernel's own and those added so far, less
those reaped. Whatever is called next: adding a process is refused because the table is full exactly
if all slots are taken or no number is left, and otherwise the process comes into the first free
slot, if it is added at all; reaping answers with the number of processes that have exited, frees
their slots and leaves all others as they are. -/
theorem slots_balance {p : π} (run : Run (start p) history s) :
    s.table.processes.length + freedSlots history = 1 + additions history ∧
    (∀ name entry userland,
      ((s.perform (.create name entry userland)).1 = .created (.error .tableFull) ↔
        s.table.processes.length = 32 ∨ s.table.nextPid = pidLimit) ∧
      ∀ h t, Step s (.create name entry userland) (.created (.ok h)) t →
        IsLeast {slot | s.table.slots slot = none} h.slot ∧ (∃ q, t.table.get h = .ok q) ∧
        ∀ slot ≠ h.slot, t.table.slots slot = s.table.slots slot) ∧
    ∃ t, s.perform .reap = (.reaped (s.table.countIn (some .exited)), t) ∧
      t.table.countIn (some .exited) = 0 ∧
      ∀ slot, t.table.slots slot =
        if s.table.stateOf slot = some .exited then none else s.table.slots slot := by
  have first : Coherent (start p).table := coherent_new (activeSpace p)
  have coherent := run.coherent first
  refine ⟨?_, fun name entry userland => ⟨?_, fun h t step => create_takes step⟩, ?_⟩
  · have balance := balance_run run first
    rw [start, occupied_new, Finset.card_singleton] at balance
    rw [length_processes]
    exact balance
  · have bound := (numbered_run run).next_bounds.2
    have number : pidLimit ≤ s.table.nextPid ↔ s.table.nextPid = pidLimit := by omega
    rw [← number]
    refine Iff.trans ?_ (create_tableFull_iff s.table name entry userland s.machine)
    exact ⟨Answer.created.inj, congrArg Answer.created⟩
  · obtain ⟨t, call, slots⟩ := perform_reap coherent.toControlled
    refine ⟨t, call, List.countP_eq_zero.mpr fun slot _ => ?_, slots⟩
    rw [stateOf, slots]
    split
    · decide
    · rename_i alive
      simpa [stateOf] using alive

/-- Two processes come, the first of them goes, and a third one gets its slot. -/
def slotReused : List Operation :=
  [.create "init" 0x400000 true, .create "shell" 0x500000 false, .exit .first, .reap,
    .create "next" 0x600000 false]

theorem slots_balance_reused :
    Run flatStart (flatStart.record slotReused) (flatStart.after slotReused) ∧
      additions (flatStart.record slotReused) = 3 ∧ freedSlots (flatStart.record slotReused) = 1 ∧
      (flatStart.after slotReused).table.processes.length = 3 := by
  have run := run_record flatStart slotReused (by decide)
  have added : additions (flatStart.record slotReused) = 3 := by rfl
  have freed : freedSlots (flatStart.record slotReused) = 1 := by rfl
  have balance := (slots_balance run).1
  rw [added, freed] at balance
  exact ⟨run, added, freed, by omega⟩

end TableState
end KernelCore
