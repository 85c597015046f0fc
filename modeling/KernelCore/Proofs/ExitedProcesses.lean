import KernelCore.Proofs.ProcessFates

/-!
# Processes that have exited

A process that has exited is meant to stay in its slot as it is until the slot is reaped. It does,
under every call but one: a load that fails stops the process whatever its state was, and a stopped
process can be made ready again.
-/
namespace KernelCore

namespace TableState

open ProcessTable

variable {π : Type} [Platform π] {s u : TableState π} {op : Operation} {a : Answer}
  {h : ProcessHandle}

/-- A call that is not the removal leaves the process as it is, unless it is a load that fails. -/
theorem rests_step (coherent : Coherent s.table) (rests : Rests s.table h .exited)
    (step : Step s op a u) (hop : op ≠ .reap) :
    (FailedLoad h op a ∧ Rests u.table h .stopped) ∨
      (¬ FailedLoad h op a ∧ Rests u.table h .exited) := by
  have effect := effect_of_coherent coherent step
  by_cases hsub : op.subject = some h
  · obtain ⟨q, live, hexited, hsaved⟩ := rests
    rcases effect.subject_cases live hsub with
      ⟨other, hu⟩ | ⟨failed, -, hu⟩ | ⟨-, top, can, -⟩ | ⟨other, -, -, hu⟩
    · rw [hu]
      exact .inr ⟨other, q, live, hexited, hsaved⟩
    · rw [hu]
      exact .inl ⟨failed, rests_settle live .stopped⟩
    · exact absurd hexited can.not_exited
    · rw [hu]
      exact .inr ⟨other, rests_settle live .exited⟩
  · exact .inr ⟨not_failedLoad_of_subject hsub,
      effect.rests_stays coherent.toControlled rests nofun hsub fun _ => hop⟩

/-- Without a load that fails, it is reaped or stays as it is. -/
theorem rests_run {more : List (Event π)} (run : Run s more u) (coherent : Coherent s.table)
    (rests : Rests s.table h .exited)
    (loads : ∀ e ∈ more, ¬ FailedLoad h e.operation e.answer) :
    (Rests u.table h .exited ∧ ∀ e ∈ more, e.operation ≠ .reap) ∨
      (Gone u.table h ∧ ∃ e ∈ more, e.operation = .reap) := by
  induction run with
  | refl => exact .inl ⟨rests, List.forall_mem_nil _⟩
  | @step history t op a v run last ih =>
    have ht := run.coherent coherent
    have hload := loads ⟨t, op, a⟩ (by simp)
    rcases ih fun e he => loads e (by simp [he]) with ⟨here, kept⟩ | ⟨gone, e, he, hreap⟩
    · by_cases hop : op = .reap
      · subst hop
        obtain ⟨q, live, hexited, -⟩ := here
        have gone := (gone_reap ht live hexited (effect_of_coherent ht last)).2
        exact .inr ⟨gone, ⟨t, .reap, a⟩, by simp, rfl⟩
      · rcases rests_step ht here last hop with ⟨failed, -⟩ | ⟨-, here⟩
        · exact absurd failed hload
        · refine .inl ⟨here, ?_⟩
          intro e he
          rcases List.mem_append.mp he with he | he
          · exact kept e he
          · exact List.mem_singleton.mp he ▸ hop
    · exact .inr ⟨gone_step gone (effect_of_coherent ht last), e, by simp [he], hreap⟩

/-- A process that has exited stays so under a call other than the removal exactly if the call is
not a load of it that fails. Then it is stopped instead. As long as no load of it fails, it never
runs again, reaped or not. -/
theorem exited_iff_no_failed_load {p : π} {history : List (Event π)} (run : Run (start p) history s)
    {slot : Fin maxProcesses} {q : Process} (hq : s.table.slots slot = some q)
    (hexited : q.state = .exited) :
    (∀ {op a u}, Step s op a u → op ≠ .reap →
      (Rests u.table ⟨slot, q.pid⟩ .exited ↔ ¬ FailedLoad ⟨slot, q.pid⟩ op a) ∧
      (Rests u.table ⟨slot, q.pid⟩ .stopped ↔ FailedLoad ⟨slot, q.pid⟩ op a)) ∧
    (∀ {a u}, Step s .reap a u → u.table.slots slot = none) ∧
    (∀ {more u}, Run s more u → (∀ e ∈ more, ¬ FailedLoad ⟨slot, q.pid⟩ e.operation e.answer) →
      u.table.currentHandle ≠ ⟨slot, q.pid⟩ ∧
      (Rests u.table ⟨slot, q.pid⟩ .exited ↔ ∀ e ∈ more, e.operation ≠ .reap)) := by
  have coherent : Coherent s.table := Reachable.coherent ⟨history, run⟩
  have hsaved : q.saved = none := by
    rcases hs : q.saved with - | place
    · rfl
    · have hstate := coherent.saved_state hq (by rw [hs]; rfl)
      rw [hexited] at hstate
      rcases hstate with hstate | hstate <;> cases hstate
  have rests : Rests s.table ⟨slot, q.pid⟩ .exited :=
    ⟨q, get_eq_ok.mpr ⟨hq, rfl⟩, hexited, hsaved⟩
  refine ⟨?_, ?_, ?_⟩
  · intro op a u step hop
    rcases rests_step coherent rests step hop with ⟨failed, stopped⟩ | ⟨other, here⟩
    · refine ⟨⟨fun here => ?_, absurd failed⟩, fun _ => failed, fun _ => stopped⟩
      cases here.state_eq stopped
    · refine ⟨⟨fun _ => other, fun _ => here⟩, fun stopped => ?_, fun failed => absurd failed other⟩
      cases here.state_eq stopped
  · intro a u step
    have live : s.table.get ⟨slot, q.pid⟩ = .ok q := get_eq_ok.mpr ⟨hq, rfl⟩
    exact (gone_reap coherent live hexited (effect_of_coherent coherent step)).1
  · intro more u run' loads
    have hu := run'.coherent coherent
    rcases rests_run run' coherent rests loads with ⟨here, kept⟩ | ⟨gone, e, he, hreap⟩
    · have away := here.currentHandle_ne hu.toControlled nofun
      exact ⟨away, fun _ => kept, fun _ => here⟩
    · have away := gone.currentHandle_ne hu.toControlled
      refine ⟨away, fun here => absurd gone here.not_gone, fun kept => ?_⟩
      exact absurd hreap (kept e he)

def exitCalls : List Operation := [.create "init" 0x400000 false, .exit .first]

/-- The first process has exited before it ever ran. -/
def exitedEarly : TableState FlatMachine := flatStart.after exitCalls

theorem run_exitedEarly : Run flatStart (flatStart.record exitCalls) exitedEarly :=
  run_record flatStart exitCalls (by decide)

theorem exitedEarly_slots : ∃ q, exitedEarly.table.slots ProcessHandle.first.slot = some q ∧
    q.state = .exited := ⟨_, rfl, rfl⟩

theorem exited_iff_no_failed_load_early : ∃ q,
    Run flatStart (flatStart.record exitCalls) exitedEarly ∧
    exitedEarly.table.slots ProcessHandle.first.slot = some q ∧ q.state = .exited ∧
    ∀ {a u}, Step exitedEarly (.prepare .first) a u →
      Rests u.table ⟨ProcessHandle.first.slot, q.pid⟩ .exited := by
  obtain ⟨q, hq, hexited⟩ := exitedEarly_slots
  refine ⟨q, run_exitedEarly, hq, hexited, fun step => ?_⟩
  obtain ⟨calls, -⟩ := exited_iff_no_failed_load run_exitedEarly hq hexited
  exact (calls step nofun).1.mpr nofun

/-- A process that has exited runs again after a load that fails. -/
theorem exited_process_runs_again :
    Run flatStart (flatStart.record exitCalls) exitedEarly ∧
    Rests exitedEarly.table .first .exited ∧
    Step exitedEarly (.load .first ⟨#[]⟩) (.loaded (.error (.load .tooSmall)))
      (exitedEarly.after [.load .first ⟨#[]⟩]) ∧
    ¬ Rests (exitedEarly.after [.load .first ⟨#[]⟩]).table .first .exited ∧
    (exitedEarly.after [.load .first ⟨#[]⟩, .prepare .first,
      .schedule (.outside 0) {}]).table.currentHandle = .first := by
  refine ⟨run_exitedEarly, ⟨_, rfl, rfl, rfl⟩, ⟨rfl, nofun⟩, ?_, rfl⟩
  rintro ⟨q, live, hexited, -⟩
  cases live
  cases hexited

end TableState
end KernelCore
