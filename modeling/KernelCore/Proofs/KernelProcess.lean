import KernelCore.Proofs.CircularOrder
import KernelCore.Proofs.ProcessFates

/-!
# The kernel's own process

The kernel's own process is meant to run again after every tick that stops it. It does as long as
nobody tries to load an image for it: a load that fails stops it, and as it has no stack of its own
it can never be made ready again.
-/
namespace KernelCore

namespace ProcessTable

/-- The kernel's own process is running, or ready with a place to go on from. -/
def KernelSchedulable (t : ProcessTable) : Prop :=
  ∃ q, t.get .kernel = .ok q ∧
    ((t.current = kernelSlot ∧ q.state = .running) ∨ (q.state = .ready ∧ q.saved.isSome))

/-- It always is the process with number 1 and has no stack of its own. -/
theorem Populated.get_kernel {t : ProcessTable} (h : Populated t) :
    ∃ q, t.get .kernel = .ok q ∧ q.kernelStack = none := by
  obtain ⟨q, hq, hpid, -, hstack, -⟩ := h.kernel
  exact ⟨q, get_eq_ok.mpr ⟨hq, hpid⟩, hstack⟩

theorem KernelSchedulable.not_rests {t : ProcessTable} (h : KernelSchedulable t) :
    ¬ Rests t .kernel .stopped := by
  rintro ⟨q, live, hstopped, -⟩
  obtain ⟨r, live', hr⟩ := h
  obtain rfl := Except.ok.inj (live.symm.trans live')
  rw [hstopped] at hr
  rcases hr with ⟨-, hr⟩ | ⟨hr, -⟩ <;> cases hr

theorem kernelSchedulable_new (space : AddressSpace) : KernelSchedulable (new space) :=
  ⟨_, get_eq_ok.mpr ⟨kernel_slots_new space, rfl⟩, .inl ⟨rfl, rfl⟩⟩

/-- The kernel's own slot is where the circular order from `slot` on wraps around. -/
theorem slotsAfter_wrap {slot : Nat} (hslot : slot < maxProcesses)
    (hi : maxProcesses - 1 - slot < (slotsAfter slot).length) :
    (slotsAfter slot)[maxProcesses - 1 - slot] = kernelSlot := by
  have hsum : slot + (maxProcesses - 1 - slot + 1) = maxProcesses := by omega
  apply Fin.ext
  rw [val_slotsAfter, hsum, Nat.mod_self]
  rfl

/-- If the kernel's own process can run, the search from another slot on never goes past it. -/
theorem next_of_kernel {t : ProcessTable} {slot : Nat} (hslot : slot < maxProcesses)
    (hk : t.runnableSlot kernelSlot = true) :
    ∃ next, t.nextRunnableAfter slot = some next ∧ (next = kernelSlot ∨ slot < next.val) := by
  have hi : maxProcesses - 1 - slot < (slotsAfter slot).length := by
    rw [length_slotsAfter]
    omega
  rcases hf : t.nextRunnableAfter slot with - | next
  · have hnone := List.find?_eq_none.mp hf (slotsAfter slot)[maxProcesses - 1 - slot]
      (List.getElem_mem hi)
    rw [slotsAfter_wrap hslot] at hnone
    exact absurd hk hnone
  · refine ⟨next, rfl, ?_⟩
    obtain ⟨-, i, hlen, hnext, before⟩ := List.find?_eq_some_iff_getElem.mp hf
    -- Before the wrap the numbers grow, and past it the kernel's own slot would have come first.
    rcases Nat.lt_trichotomy i (maxProcesses - 1 - slot) with hlt | heq | hgt
    · right
      have hsum : slot + (i + 1) < maxProcesses := by omega
      rw [← hnext, val_slotsAfter, Nat.mod_eq_of_lt hsum]
      omega
    · left
      subst heq
      rw [← hnext, slotsAfter_wrap hslot]
    · have hfalse := before (maxProcesses - 1 - slot) hgt
      rw [slotsAfter_wrap hslot, hk] at hfalse
      cases hfalse

theorem KernelSchedulable.runnable_interrupted {t : ProcessTable} (h : KernelSchedulable t)
    (place : FramePlace) (registers : Trapframe) :
    (t.interrupted place registers).runnableSlot kernelSlot = true := by
  obtain ⟨q, live, hstate⟩ := h
  have hq : t.slots kernelSlot = some q := (get_eq_ok.mp live).1
  rw [runnableSlot, slots_interrupted, hq]
  rcases hstate with ⟨hcur, hrun⟩ | ⟨hready, hsaved⟩
  · rw [if_pos hcur.symm]
    simp [Process.runnable, hrun]
  · split
    · simp [Process.runnable, hready]
    · simp [Process.runnable, hready, hsaved]

end ProcessTable

namespace TableState

open ProcessTable

variable {π : Type} [Platform π] {s u : TableState π} {op : Operation} {a : Answer}

theorem kernel_of_subject {q : Process} (live : s.table.get .kernel = .ok q)
    (hstack : q.kernelStack = none) (effect : Effect s op a u)
    (hop : op.subject = some .kernel) :
    (FailedLoad .kernel op a ∧ Rests u.table .kernel .stopped) ∨
      (¬ FailedLoad .kernel op a ∧ u.table = s.table) := by
  rcases effect.subject_cases live hop with
    refused | ⟨failed, -, hu⟩ | ⟨-, top, can, -⟩ | ⟨-, -, user, -⟩
  · exact .inr refused
  · rw [hu]
    exact .inl ⟨failed, rests_settle live .stopped⟩
  · have hown := can.kernelStack
    rw [hstack] at hown
    cases hown
  · exact absurd rfl user

/-- A tick stops the kernel's own process or lets it run, and leaves it a place to go on from. -/
theorem kernelSchedulable_tick (h : KernelSchedulable s.table) {place : FramePlace}
    {registers : Trapframe} (effect : Effect s (.schedule place registers) a u) :
    KernelSchedulable u.table := by
  obtain ⟨q, live, hstate⟩ := h
  obtain ⟨hq, hpid⟩ := get_eq_ok.mp live
  have enough (r : Process) (hr : u.table.slots kernelSlot = some r) (hrpid : r.pid = q.pid)
      (hrs : (u.table.current = kernelSlot ∧ r.state = .running) ∨
        (r.state = .ready ∧ r.saved.isSome)) : KernelSchedulable u.table :=
    ⟨r, get_eq_ok.mpr ⟨hr, hrpid.trans hpid⟩, hrs⟩
  cases effect with
  | kept alone =>
    have hslot := slots_interrupted s.table place registers kernelSlot
    change s.table.slots kernelSlot = _ at hq
    rw [hq] at hslot
    rcases hstate with ⟨hcur, hrun⟩ | ⟨hready, hsaved⟩
    · rw [if_pos hcur.symm] at hslot
      exact enough _ hslot rfl (.inl ⟨hcur, hrun⟩)
    · split at hslot
      · exact enough _ hslot rfl (.inr ⟨hready, rfl⟩)
      · exact enough _ hslot rfl (.inr ⟨hready, hsaved⟩)
  | @switched place registers next old new resumed found other leaves enters saved =>
    have hslot := slots_switched s.table place registers other kernelSlot
    change s.table.slots kernelSlot = _ at hq
    rw [hq] at hslot
    split at hslot
    · rename_i hnext
      exact enough _ hslot rfl (.inl ⟨hnext.symm, rfl⟩)
    · split at hslot
      · refine enough _ hslot rfl (.inr ⟨?_, rfl⟩)
        rcases hstate with ⟨-, hrun⟩ | ⟨hready, -⟩
        · rw [Process.settle_state, if_pos hrun]
        · rw [Process.settle_state, hready]
          rfl
      · rename_i away
        rcases hstate with ⟨hcur, -⟩ | hready
        · exact absurd hcur.symm away
        · exact enough _ hslot rfl (.inr hready)

/-- A call leaves the kernel's own process schedulable, unless it is a load of it that fails. -/
theorem kernelSchedulable_step (coherent : Coherent s.table) (h : KernelSchedulable s.table)
    (step : Step s op a u) :
    (FailedLoad .kernel op a ∧ Rests u.table .kernel .stopped) ∨
      (¬ FailedLoad .kernel op a ∧ KernelSchedulable u.table) := by
  have effect := effect_of_coherent coherent step
  obtain ⟨q, live, hstack⟩ := coherent.get_kernel
  by_cases hsub : op.subject = some .kernel
  · rcases kernel_of_subject live hstack effect hsub with failed | ⟨other, hu⟩
    · exact .inl failed
    · rw [hu]
      exact .inr ⟨other, h⟩
  · refine .inr ⟨not_failedLoad_of_subject hsub, ?_⟩
    rcases op.tick_cases with ⟨place, registers, rfl⟩ | hop
    · exact kernelSchedulable_tick h effect
    · obtain ⟨r, live', hstate⟩ := h
      obtain rfl := Except.ok.inj (live.symm.trans live')
      have hreap : q.state = .exited → op ≠ .reap := by
        intro hexited
        rw [hexited] at hstate
        rcases hstate with ⟨-, hs⟩ | ⟨hs, -⟩ <;> cases hs
      have hslot := effect.slot_stays_between coherent.toControlled live hop hsub hreap
      refine ⟨q, get_eq_ok.mpr ⟨hslot, (get_eq_ok.mp live).2⟩, ?_⟩
      rw [(effect.current_stays coherent.toControlled hop).1]
      exact hstate

theorem kernel_rests_step (coherent : Coherent s.table) (rests : Rests s.table .kernel .stopped)
    (step : Step s op a u) : Rests u.table .kernel .stopped := by
  have effect := effect_of_coherent coherent step
  by_cases hsub : op.subject = some .kernel
  · obtain ⟨q, live, hstack⟩ := coherent.get_kernel
    rcases kernel_of_subject live hstack effect hsub with ⟨-, still⟩ | ⟨-, hu⟩
    · exact still
    · rw [hu]
      exact rests
  · exact effect.rests_stays coherent.toControlled rests nofun hsub nofun

/-- Whether it still is schedulable can be told from the calls alone. -/
theorem kernelSchedulable_run {history : List (Event π)} (run : Run s history u)
    (coherent : Coherent s.table) (h : KernelSchedulable s.table) :
    (KernelSchedulable u.table ∧ ∀ e ∈ history, ¬ FailedLoad .kernel e.operation e.answer) ∨
      (Rests u.table .kernel .stopped ∧
        ∃ e ∈ history, FailedLoad .kernel e.operation e.answer) := by
  induction run with
  | refl => exact .inl ⟨h, List.forall_mem_nil _⟩
  | @step history t op a v run last ih =>
    have ht := run.coherent coherent
    rcases ih with ⟨here, none⟩ | ⟨stopped, e, he, failed⟩
    · rcases kernelSchedulable_step ht here last with ⟨failed, stopped⟩ | ⟨other, here⟩
      · exact .inr ⟨stopped, ⟨t, op, a⟩, by simp, failed⟩
      · refine .inl ⟨here, ?_⟩
        intro e he
        rcases List.mem_append.mp he with he | he
        · exact none e he
        · exact List.mem_singleton.mp he ▸ other
    · exact .inr ⟨kernel_rests_step ht stopped last, e, by simp [he], failed⟩

/-- A tick moves on in the table, at most up to the kernel's own slot, where it wraps around. -/
theorem current_tick (h : KernelSchedulable s.table) {place : FramePlace} {registers : Trapframe}
    (effect : Effect s (.schedule place registers) a u) :
    u.table.current = kernelSlot ∨ s.table.current.val < u.table.current.val := by
  obtain ⟨next, hnext, hpos⟩ :=
    next_of_kernel s.table.current.isLt (h.runnable_interrupted place registers)
  cases effect with
  | kept alone =>
    obtain rfl := alone next hnext
    rcases hpos with hpos | hpos
    · exact .inl hpos
    · exact absurd hpos (Nat.lt_irrefl _)
  | switched found other leaves enters saved =>
    obtain rfl := Option.some.inj (found.symm.trans hnext)
    exact hpos

/-- As long as no tick lets the kernel's own process run, every tick moves on. -/
theorem ticks_le_of_away {more : List (Event π)} (run : Run s more u) (coherent : Coherent s.table)
    (h : KernelSchedulable s.table)
    (loads : ∀ e ∈ more, ¬ FailedLoad .kernel e.operation e.answer)
    (away : ∀ e ∈ more, e.operation.isTick = true → e.after.table.current ≠ kernelSlot) :
    s.table.current.val + ticks more ≤ u.table.current.val := by
  induction run with
  | refl => exact Nat.le_refl _
  | @step more t op a v run last ih =>
    have hle := ih (fun e he => loads e (by simp [he])) fun e he => away e (by simp [he])
    have ht := run.coherent coherent
    have effect := effect_of_coherent ht last
    have hticks : ticks (more ++ [⟨t, op, a⟩]) = ticks more + ticks [⟨t, op, a⟩] :=
      List.countP_append
    rw [hticks]
    -- The number of the current slot grows with every tick that does not wrap around.
    rcases op.tick_cases with ⟨place, registers, rfl⟩ | hop
    · have hone : ticks [(⟨t, .schedule place registers, a⟩ : Event π)] = 1 := rfl
      have still : v.table.current ≠ kernelSlot := by
        have hne := away ⟨t, .schedule place registers, a⟩ (by simp) rfl
        rw [Event.after, last.1] at hne
        exact hne
      rcases kernelSchedulable_run run coherent h with ⟨here, -⟩ | ⟨-, e, he, failed⟩
      · rcases current_tick here effect with hk | hlt
        · exact absurd hk still
        · omega
      · exact absurd failed (loads e (by simp [he]))
    · have hnone : ticks [(⟨t, op, a⟩ : Event π)] = 0 := by
        cases op with
        | schedule place registers => exact absurd rfl (hop place registers)
        | _ => rfl
      rw [hnone, (effect.current_stays ht.toControlled hop).1]
      exact hle

/-- The kernel's own process is schedulable exactly if no load of it has failed. If it is, it runs
again within as many ticks as there are slots, whatever else is called. If it is not, it never runs
again. -/
theorem kernelSchedulable_iff_no_failed_load {p : π} {history : List (Event π)}
    (run : Run (start p) history s) :
    (∃ q, s.table.slots kernelSlot = some q ∧ q.pid = 1) ∧
    (KernelSchedulable s.table ↔ ∀ e ∈ history, ¬ FailedLoad .kernel e.operation e.answer) ∧
    (KernelSchedulable s.table → ∀ {more u}, Run s more u →
      (∀ e ∈ more, ¬ FailedLoad .kernel e.operation e.answer) → maxProcesses ≤ ticks more →
      ∃ e ∈ more, e.operation.isTick = true ∧ e.after.table.current = kernelSlot) ∧
    (¬ KernelSchedulable s.table → ∀ {more u}, Run s more u → u.table.current ≠ kernelSlot) := by
  have first : Coherent (start p).table := coherent_new (activeSpace p)
  have coherent := run.coherent first
  have known := kernelSchedulable_run run first (kernelSchedulable_new (activeSpace p))
  refine ⟨?_, ?_, ?_, ?_⟩
  · obtain ⟨q, hq, hpid, -⟩ := coherent.kernel
    exact ⟨q, hq, hpid⟩
  · rcases known with ⟨here, none⟩ | ⟨stopped, e, he, failed⟩
    · exact ⟨fun _ => none, fun _ => here⟩
    · exact ⟨fun h => absurd stopped h.not_rests, fun none => absurd failed (none e he)⟩
  · intro h more u run' loads enough
    by_cases hex : ∃ e ∈ more, e.operation.isTick = true ∧ e.after.table.current = kernelSlot
    · exact hex
    · have hle := ticks_le_of_away run' coherent h loads fun e he htick hk =>
        hex ⟨e, he, htick, hk⟩
      have hlt := u.table.current.isLt
      omega
  · intro h more u run'
    have stopped : Rests s.table .kernel .stopped := by
      rcases known with ⟨here, -⟩ | ⟨stopped, -⟩
      · exact absurd here h
      · exact stopped
    have still : Coherent u.table ∧ Rests u.table .kernel .stopped :=
      run'.invariant (fun v => Coherent v.table ∧ Rests v.table .kernel .stopped)
        ⟨coherent, stopped⟩ fun e _ v hv step =>
          ⟨coherent_step hv.1 step, kernel_rests_step hv.1 hv.2 step⟩
    obtain ⟨hu, q, live, hstopped, -⟩ := still
    have away := hu.slot_ne_current (get_eq_ok.mp live).1 fun hrun =>
      nomatch hstopped.symm.trans hrun
    exact away.symm

def preemptCalls : List Operation :=
  [.create "init" 0x400000 false, .prepare .first, .schedule (.outside 0) {}]

/-- The kernel's own process has given way to the first process. -/
def preempted : TableState FlatMachine := flatStart.after preemptCalls

theorem run_preempted : Run flatStart (flatStart.record preemptCalls) preempted :=
  run_record flatStart preemptCalls (by decide)

theorem kernelSchedulable_preempted : KernelSchedulable preempted.table :=
  ⟨_, rfl, .inr ⟨rfl, rfl⟩⟩

theorem kernelSchedulable_iff_no_failed_load_preempted :
    Run flatStart (flatStart.record preemptCalls) preempted ∧
    preempted.table.currentHandle = .first ∧ KernelSchedulable preempted.table ∧
    ∀ {more u}, Run preempted more u →
      (∀ e ∈ more, ¬ FailedLoad .kernel e.operation e.answer) → maxProcesses ≤ ticks more →
      ∃ e ∈ more, e.operation.isTick = true ∧ e.after.table.current = kernelSlot := by
  refine ⟨run_preempted, rfl, kernelSchedulable_preempted, ?_⟩
  obtain ⟨-, -, again, -⟩ := kernelSchedulable_iff_no_failed_load run_preempted
  exact again kernelSchedulable_preempted

/-- Loading an image for the kernel's own process stops it if the load fails. -/
theorem kernel_stopped_by_load : flatStart.table.currentHandle = .kernel ∧
    Run flatStart (flatStart.record (preemptCalls ++ [.load .kernel ⟨#[]⟩]))
      (flatStart.after (preemptCalls ++ [.load .kernel ⟨#[]⟩])) ∧
    ¬ KernelSchedulable (flatStart.after (preemptCalls ++ [.load .kernel ⟨#[]⟩])).table := by
  refine ⟨rfl, run_record _ _ (by decide), fun h => ?_⟩
  exact h.not_rests ⟨_, rfl, rfl, rfl⟩

end TableState
end KernelCore
