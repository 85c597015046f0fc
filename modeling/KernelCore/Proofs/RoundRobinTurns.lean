import KernelCore.Proofs.CircularOrder
import KernelCore.Proofs.TableCoherence

/-!
# Taking turns

The processes that may run take turns in the circular order of their slots. A tick moves on by one
place among the slots of `rotation`, which no tick changes: saving a frame, stopping one process and
starting another neither add a slot nor take one away. So in every round of ticks each of these
processes goes on once, and a process that is alone goes on with every tick.
-/
namespace KernelCore

namespace ProcessTable

/-- The slots that take turns, in table order: the current one, and those whose process may run. -/
def rotation (t : ProcessTable) : List (Fin maxProcesses) :=
  (List.finRange maxProcesses).filter fun s => s = t.current || t.runnableSlot s

/-- The slot that is `n` places behind the current one among those that take turns. -/
def turnAfter (t : ProcessTable) (n : Nat) : Option (Fin maxProcesses) :=
  t.rotation[(t.rotation.idxOf t.current + n) % t.rotation.length]?

theorem nodup_rotation (t : ProcessTable) : t.rotation.Nodup :=
  (List.nodup_finRange maxProcesses).filter _

theorem mem_rotation {t : ProcessTable} {s : Fin maxProcesses} :
    s ∈ t.rotation ↔ s = t.current ∨ t.runnableSlot s = true := by
  simp [rotation]

theorem runnableSlot_iff {t : ProcessTable} {s : Fin maxProcesses} :
    t.runnableSlot s = true ↔
      ∃ q, t.slots s = some q ∧ (q.state = .ready ∨ q.state = .running) ∧ q.saved.isSome := by
  rw [runnableSlot, Option.any_eq_true]
  simp only [Process.runnable, Bool.and_eq_true, Bool.or_eq_true, beq_iff_eq]

theorem current_mem_rotation (t : ProcessTable) : t.current ∈ t.rotation :=
  mem_rotation.mpr (.inl rfl)

theorem idxOf_current_lt (t : ProcessTable) : t.rotation.idxOf t.current < t.rotation.length :=
  List.idxOf_lt_length_of_mem t.current_mem_rotation

theorem turnAfter_zero (t : ProcessTable) : t.turnAfter 0 = some t.current := by
  rw [turnAfter, Nat.add_zero, Nat.mod_eq_of_lt t.idxOf_current_lt,
    List.getElem?_eq_getElem t.idxOf_current_lt, List.getElem_idxOf]

theorem exists_turnAfter (t : ProcessTable) (n : Nat) : ∃ s, t.turnAfter n = some s := by
  have hlen : 0 < t.rotation.length := Nat.zero_lt_of_lt t.idxOf_current_lt
  exact ⟨_, List.getElem?_eq_getElem (Nat.mod_lt _ hlen)⟩

theorem turnAfter_mem {t : ProcessTable} {n : Nat} {s : Fin maxProcesses}
    (h : t.turnAfter n = some s) : s ∈ t.rotation := List.mem_of_getElem? h

/-- Turns are counted on from where one has got. -/
theorem turnAfter_add {t u : ProcessTable} (same : u.rotation = t.rotation) {m : Nat}
    (h : t.turnAfter m = some u.current) (n : Nat) : u.turnAfter n = t.turnAfter (m + n) := by
  obtain ⟨hlt, hget⟩ := List.getElem?_eq_some_iff.mp h
  have hidx : t.rotation.idxOf u.current =
      (t.rotation.idxOf t.current + m) % t.rotation.length := by
    rw [← hget]
    exact t.nodup_rotation.idxOf_getElem _ hlt
  rw [turnAfter, turnAfter, same, hidx, Nat.mod_add_mod, Nat.add_assoc]

/-- As many turns as there are slots lead once through the circle. -/
theorem turnAfter_round (t : ProcessTable) :
    ((List.range t.rotation.length).map fun i => t.turnAfter (i + 1)) =
      (t.rotation.drop (t.rotation.idxOf t.current + 1) ++
        t.rotation.take (t.rotation.idxOf t.current + 1)).map some := by
  have hk := t.idxOf_current_lt
  unfold turnAfter
  generalize t.rotation.idxOf t.current = k at hk ⊢
  apply List.ext_getElem
  · simp only [List.length_map, List.length_range, List.length_append, List.length_drop,
      List.length_take]
    omega
  · intro i hi _
    rw [List.length_map, List.length_range] at hi
    rw [List.getElem_map, List.getElem_map, List.getElem_range, List.getElem_append]
    split
    · rename_i hfront
      rw [List.length_drop] at hfront
      have hlt : k + (i + 1) < t.rotation.length := by omega
      rw [Nat.mod_eq_of_lt hlt, List.getElem?_eq_getElem hlt, List.getElem_drop]
      congr 2
      omega
    · rename_i hback
      rw [List.length_drop] at hback
      have hge : t.rotation.length ≤ k + (i + 1) := by omega
      have hlt : k + (i + 1) - t.rotation.length < t.rotation.length := by omega
      rw [Nat.mod_eq_sub_mod hge, Nat.mod_eq_of_lt hlt, List.getElem?_eq_getElem hlt,
        List.getElem_take]
      congr 2
      rw [List.length_drop]
      omega

theorem Controlled.runnableSlot_interrupted {t : ProcessTable} (h : Controlled t)
    (place : FramePlace) (registers : Trapframe) (s : Fin maxProcesses) :
    (t.interrupted place registers).runnableSlot s = (s = t.current || t.runnableSlot s) := by
  obtain ⟨q, hq, hrun⟩ := h.current_running
  rw [runnableSlot, slots_interrupted]
  by_cases hs : s = t.current
  · simp [hs, hq, Process.runnable, hrun]
  · simp [hs, runnableSlot]

/-- The search of a tick goes on to the next turn. -/
theorem Controlled.next_interrupted {t : ProcessTable} (h : Controlled t) (place : FramePlace)
    (registers : Trapframe) :
    (t.interrupted place registers).nextRunnableAfter t.current = t.turnAfter 1 := by
  have hslot := h.runnableSlot_interrupted place registers
  have hcur : (t.interrupted place registers).runnableSlot t.current = true := by
    rw [hslot]
    simp
  have hfilter : (List.finRange maxProcesses).filter (t.interrupted place registers).runnableSlot =
      t.rotation := List.filter_congr fun s _ => hslot s
  rw [next_of_runnable hcur, hfilter, turnAfter]

theorem rotation_congr {t u : ProcessTable}
    (h : ∀ s, (s = u.current ∨ u.runnableSlot s = true) ↔
      (s = t.current ∨ t.runnableSlot s = true)) : u.rotation = t.rotation := by
  refine List.filter_congr fun s _ => Bool.eq_iff_iff.mpr ?_
  simpa using h s

end ProcessTable

namespace TableState

open ProcessTable

variable {π : Type} [Platform π] {s u : TableState π} {a : Answer}

/-- Ticks that interrupt the running process at these places with these registers. -/
def tickCalls (frames : List (FramePlace × Trapframe)) : List Operation :=
  frames.map fun f => .schedule f.1 f.2

/-- The slot whose process goes on after the call. -/
def Event.turn (e : Event π) : Fin maxProcesses := e.after.table.current

/-- What a tick answers is where the process that goes on was saved. -/
def GoesOn (u : TableState π) (a : Answer) : Prop :=
  ∃ q place, u.table.slots u.table.current = some q ∧ q.saved = some place ∧ a = .resumed place

section Tick

variable {place : FramePlace} {registers : Trapframe}

theorem Effect.rotation_tick (controlled : Controlled s.table)
    (effect : Effect s (.schedule place registers) a u) :
    u.table.rotation = s.table.rotation := by
  have hslot := controlled.runnableSlot_interrupted place registers
  cases effect with
  | kept alone =>
    apply rotation_congr
    intro slot
    change (slot = s.table.current ∨ _) ↔ _
    rw [hslot]
    simp
  | @switched _ _ next old new _ found other leaves enters saved =>
    have hnext := turnAfter_mem ((controlled.next_interrupted place registers).symm.trans found)
    have hrun : s.table.runnableSlot next = true := by
      rcases mem_rotation.mp hnext with h | h
      · exact absurd h other
      · exact h
    have hold : old.state = .running := by
      obtain ⟨q, hq, hq'⟩ := controlled.current_running
      rw [leaves] at hq
      exact Option.some.inj hq ▸ hq'
    apply rotation_congr
    intro slot
    change (slot = next ∨ ((s.table.interrupted place registers).handOver next).runnableSlot slot =
      true) ↔ _
    -- The process that takes over could run before, the one that gives way can run after.
    rw [runnableSlot, slots_switched _ _ _ other]
    by_cases hs : slot = next
    · simp [hs, hrun]
    · by_cases hc : slot = s.table.current
      · simp [hc, other.symm, leaves, Process.runnable, hold]
      · simp [hs, hc, runnableSlot]

theorem Effect.turn_tick (controlled : Controlled s.table)
    (effect : Effect s (.schedule place registers) a u) :
    s.table.turnAfter 1 = some u.table.current := by
  obtain ⟨next, hnext⟩ := s.table.exists_turnAfter 1
  have hfound := (controlled.next_interrupted place registers).trans hnext
  cases effect with
  | kept alone =>
    rw [hnext, alone next hfound]
    rfl
  | switched found other leaves enters saved =>
    rw [hnext, ← hfound, found]
    rfl

theorem Effect.goesOn_tick (controlled : Controlled s.table)
    (effect : Effect s (.schedule place registers) a u) : GoesOn u a := by
  cases effect with
  | kept alone =>
    obtain ⟨q, hq, -⟩ := controlled.current_running
    refine ⟨q.settle q.state (some place), place, ?_, rfl, rfl⟩
    change (s.table.interrupted place registers).slots s.table.current = _
    rw [slots_interrupted, if_pos rfl, hq]
    rfl
  | @switched _ _ next old new resumed found other leaves enters saved =>
    refine ⟨new.settle .running new.saved, resumed, ?_, saved, rfl⟩
    change ((s.table.interrupted place registers).handOver next).slots next = _
    rw [slots_switched _ _ _ other, if_pos rfl, enters]
    rfl

/-- A tick that finds nobody else answers with its own frame and changes nothing but that. -/
theorem Effect.alone_tick (controlled : Controlled s.table)
    (alone : s.table.rotation = [s.table.current])
    (effect : Effect s (.schedule place registers) a u) :
    a = .resumed place ∧ u.table.current = s.table.current ∧
      (∀ slot, u.table.stateOf slot = s.table.stateOf slot) ∧ u.machine = s.machine := by
  cases effect with
  | kept _ =>
    refine ⟨rfl, rfl, ?_, rfl⟩
    intro slot
    change (s.table.interrupted place registers).stateOf slot = _
    rw [stateOf, slots_interrupted]
    split
    · rw [Option.map_map]
      rfl
    · rfl
  | @switched _ _ next _ _ _ found other leaves enters saved =>
    have hnext := turnAfter_mem ((controlled.next_interrupted place registers).symm.trans found)
    rw [alone] at hnext
    exact absurd (List.mem_singleton.mp hnext) other

end Tick

theorem effect_tick (coherent : Coherent s.table) (place : FramePlace) (registers : Trapframe) :
    Effect s (.schedule place registers) (s.perform (.schedule place registers)).1
      (s.perform (.schedule place registers)).2 := by
  obtain ⟨q, hq, -⟩ := coherent.current_running
  exact effect_schedule s place registers ⟨q, hq⟩

theorem coherent_ticks (coherent : Coherent s.table) (frames : List (FramePlace × Trapframe)) :
    Coherent (s.after (tickCalls frames)).table := by
  induction frames generalizing s with
  | nil => exact coherent
  | cons f frames ih => exact ih (coherent_effect coherent (effect_tick coherent f.1 f.2))

theorem rotation_ticks (coherent : Coherent s.table) (frames : List (FramePlace × Trapframe)) :
    (s.after (tickCalls frames)).table.rotation = s.table.rotation := by
  induction frames generalizing s with
  | nil => rfl
  | cons f frames ih =>
    have effect := effect_tick coherent f.1 f.2
    exact (ih (coherent_effect coherent effect)).trans
      (effect.rotation_tick coherent.toControlled)

theorem current_ticks (coherent : Coherent s.table) (frames : List (FramePlace × Trapframe)) :
    s.table.turnAfter frames.length = some (s.after (tickCalls frames)).table.current := by
  induction frames generalizing s with
  | nil => exact s.table.turnAfter_zero
  | cons f frames ih =>
    have effect := effect_tick coherent f.1 f.2
    have same := effect.rotation_tick coherent.toControlled
    have first := effect.turn_tick coherent.toControlled
    rw [List.length_cons, Nat.add_comm, ← turnAfter_add same first]
    exact ih (coherent_effect coherent effect)

/-- The slots whose processes go on, tick by tick. -/
theorem turns_ticks (coherent : Coherent s.table) (frames : List (FramePlace × Trapframe)) :
    ((s.record (tickCalls frames)).map Event.turn).map some =
      (List.range frames.length).map fun i => s.table.turnAfter (i + 1) := by
  induction frames generalizing s with
  | nil => rfl
  | cons f frames ih =>
    have effect := effect_tick coherent f.1 f.2
    have same := effect.rotation_tick coherent.toControlled
    have first := effect.turn_tick coherent.toControlled
    have rest := ih (coherent_effect coherent effect)
    rw [List.length_cons, List.range_succ_eq_map, List.map_cons]
    refine List.cons_eq_cons.mpr ⟨first.symm, rest.trans ?_⟩
    rw [List.map_map]
    apply List.map_congr_left
    intro i _
    rw [turnAfter_add same first, Function.comp_apply, Nat.add_comm 1]

/-- In a round of ticks every slot that takes turns has one. -/
theorem count_round (coherent : Coherent s.table) {frames : List (FramePlace × Trapframe)}
    (round : frames.length = s.table.rotation.length) {slot : Fin maxProcesses}
    (h : slot ∈ s.table.rotation) :
    (s.record (tickCalls frames)).countP (fun e => e.turn = slot) = 1 := by
  have hturns := turns_ticks coherent frames
  rw [round, turnAfter_round] at hturns
  have hlist := List.map_injective_iff.mpr (fun _ _ => Option.some.inj) hturns
  calc (s.record (tickCalls frames)).countP (fun e => e.turn = slot)
      = ((s.record (tickCalls frames)).map Event.turn).count slot := by
        rw [List.count, List.countP_map]
        rfl
    _ = s.table.rotation.count slot := by
        rw [hlist, List.count_append, Nat.add_comm, ← List.count_append, List.take_append_drop]
    _ = 1 := List.count_eq_one_of_mem s.table.nodup_rotation h

theorem resumed_ticks (coherent : Coherent s.table) (frames : List (FramePlace × Trapframe)) :
    ∀ e ∈ s.record (tickCalls frames), e.turn ∈ s.table.rotation ∧ GoesOn e.after e.answer := by
  induction frames generalizing s with
  | nil => exact List.forall_mem_nil _
  | cons f frames ih =>
    have effect := effect_tick coherent f.1 f.2
    have same := effect.rotation_tick coherent.toControlled
    have rest := ih (coherent_effect coherent effect)
    rw [same] at rest
    refine List.forall_mem_cons.mpr ⟨⟨?_, ?_⟩, rest⟩
    · exact turnAfter_mem (effect.turn_tick coherent.toControlled)
    · exact effect.goesOn_tick coherent.toControlled

theorem alone_ticks (coherent : Coherent s.table) (alone : s.table.rotation = [s.table.current])
    (frames : List (FramePlace × Trapframe)) : ∀ e ∈ s.record (tickCalls frames),
      (∃ place registers, e.operation = .schedule place registers ∧ e.answer = .resumed place) ∧
        e.turn = s.table.current ∧
        (∀ slot, e.after.table.stateOf slot = s.table.stateOf slot) ∧
        e.after.machine = s.machine := by
  induction frames generalizing s with
  | nil => exact List.forall_mem_nil _
  | cons f frames ih =>
    have effect := effect_tick coherent f.1 f.2
    obtain ⟨answer, current, states, machine⟩ := effect.alone_tick coherent.toControlled alone
    have still := (effect.rotation_tick coherent.toControlled).trans alone
    rw [← current] at still
    have rest := ih (coherent_effect coherent effect) still
    rw [current, machine] at rest
    refine List.forall_mem_cons.mpr ⟨⟨⟨_, _, rfl, answer⟩, current, states, machine⟩, ?_⟩
    intro e he
    obtain ⟨here, turn, same, after⟩ := rest e he
    exact ⟨here, turn, fun slot => (same slot).trans (states slot), after⟩

/-- What ticks do, whatever frames they interrupt. -/
structure TakesTurns (s : TableState π) : Prop where
  mem_rotation : ∀ slot, slot ∈ s.table.rotation ↔ slot = s.table.current ∨
    ∃ q, s.table.slots slot = some q ∧ (q.state = .ready ∨ q.state = .running) ∧ q.saved.isSome
  rotation_stays : ∀ frames, (s.after (tickCalls frames)).table.rotation = s.table.rotation
  current_turn : ∀ frames,
    s.table.turnAfter frames.length = some (s.after (tickCalls frames)).table.current
  resumed : ∀ frames, ∀ e ∈ s.record (tickCalls frames),
    e.turn ∈ s.table.rotation ∧ GoesOn e.after e.answer
  /-- Every round of ticks, whenever it begins, lets each process go on once. -/
  once_a_round : ∀ first round, round.length = s.table.rotation.length →
    ∀ slot ∈ s.table.rotation,
      ((s.after (tickCalls first)).record (tickCalls round)).countP (fun e => e.turn = slot) = 1
  /-- A process that is alone goes on where it was interrupted, and the machine is not called. -/
  alone : s.table.rotation = [s.table.current] → ∀ frames, ∀ e ∈ s.record (tickCalls frames),
    (∃ place registers, e.operation = .schedule place registers ∧ e.answer = .resumed place) ∧
      e.turn = s.table.current ∧ (∀ slot, e.after.table.stateOf slot = s.table.stateOf slot) ∧
      e.after.machine = s.machine

/-- In every state that a run reaches the processes take turns. -/
theorem takesTurns_of_reachable {p : π} (reach : Reachable p s) : TakesTurns s where
  mem_rotation slot := ProcessTable.mem_rotation.trans (or_congr_right runnableSlot_iff)
  rotation_stays := rotation_ticks reach.coherent
  current_turn := current_ticks reach.coherent
  resumed := resumed_ticks reach.coherent
  once_a_round first round hround slot hslot := by
    have same := rotation_ticks reach.coherent first
    rw [← same] at hround hslot
    exact count_round (coherent_ticks reach.coherent first) hround hslot
  alone := alone_ticks reach.coherent

/-- Of four processes beside the kernel's own one is not prepared and one has exited. -/
def gapCalls : List Operation :=
  [.create "a" 0x1000 false, .create "b" 0x2000 false, .create "c" 0x3000 true,
    .create "d" 0x4000 false, .prepare .first, .prepare ⟨⟨3, by decide⟩, 4⟩,
    .prepare ⟨⟨4, by decide⟩, 5⟩, .exit ⟨⟨4, by decide⟩, 5⟩, .schedule (.outside 0) {}]

def gaps : TableState FlatMachine := flatStart.after gapCalls

/-- The process of slot 1 runs, that of slot 3 is the next, and then it is the kernel's own. -/
theorem takesTurns_gaps : Reachable {} gaps ∧
    gaps.table.rotation = [⟨0, by decide⟩, ⟨1, by decide⟩, ⟨3, by decide⟩] ∧
    gaps.table.current = ⟨1, by decide⟩ ∧ TakesTurns gaps := by
  have reach : Reachable {} gaps := ⟨_, run_record flatStart gapCalls (by decide)⟩
  exact ⟨reach, by decide, by decide, takesTurns_of_reachable reach⟩

end TableState
end KernelCore
