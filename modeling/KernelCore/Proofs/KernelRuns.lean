import KernelCore.Proofs.ProcessFates
import KernelCore.Proofs.SingleReport

/-!
# The process table in the life of a kernel

Whatever happens to a kernel, its process table is changed by the calls of the table alone: a tick
of the timer, a call from inside the kernel, or the two calls by which a program is spawned. Between
them registers are stored in frames. So what these calls keep holds as long as the kernel lives: the
table is coherent, and a process that rests goes on resting until a call is about it.
-/
namespace KernelCore

open ProcessTable TableState

/-- The handle that an event is about. -/
def KernelEvent.subject {δ : Type} : KernelEvent δ → Option ProcessHandle
  | .operate op => op.subject
  | _ => none

namespace ProcessTable

variable {π : Type} [Platform π]

/-- Calls that are answered lead from one table to the other, on machines of any kind. Between them
registers are stored in frames. -/
inductive Moves (π : Type) [Platform π] : ProcessTable → List Operation → ProcessTable → Prop where
  | refl {t : ProcessTable} : Moves π t [] t
  | store {t u : ProcessTable} {ops : List Operation} {place : FramePlace} {f : Trapframe}
      (rest : Moves π (t.setFrame place f) ops u) : Moves π t ops u
  | call {s u : TableState π} {v : ProcessTable} {op : Operation} {a : Answer}
      {ops : List Operation} (step : Step s op a u) (rest : Moves π u.table ops v) :
      Moves π s.table (op :: ops) v

theorem Coherent.setFrame {t : ProcessTable} (h : Coherent t) (place : FramePlace)
    (f : Trapframe) : Coherent (t.setFrame place f) :=
  ⟨⟨h.kernel, h.stack_owned, h.pid_lt, h.pid_inj⟩,
    ⟨h.current_running, h.running_current, h.saved_state⟩⟩

variable {t u v : ProcessTable} {ops : List Operation} {h : ProcessHandle} {state : ProcessState}

theorem Moves.coherent (moves : Moves π t ops u) (coherent : Coherent t) : Coherent u := by
  induction moves with
  | refl => exact coherent
  | store rest ih => exact ih (coherent.setFrame _ _)
  | call step rest ih => exact ih (coherent_step coherent step)

/-- A process that rests is left alone by all calls that are not about it. -/
theorem Moves.rests (moves : Moves π t ops u) (coherent : Coherent t) (rests : Rests t h state)
    (hrun : state ≠ .running) (hexit : state ≠ .exited)
    (others : ∀ op ∈ ops, op.subject ≠ some h) : Rests u h state := by
  induction moves with
  | refl => exact rests
  | store rest ih => exact ih (coherent.setFrame _ _) rests others
  | call step rest ih =>
    obtain ⟨away, others⟩ := List.forall_mem_cons.mp others
    have effect := effect_of_coherent coherent step
    refine ih (coherent_step coherent step) ?_ others
    exact effect.rests_stays coherent.toControlled rests hrun away fun exited => absurd exited hexit

theorem moves_schedule (t : ProcessTable) (place : FramePlace) (f : Trapframe) (p : π) :
    Moves π t [.schedule place f] ((t.setFrame place f).schedule place p).2.1 := by
  have step : Step ⟨t, p⟩ (.schedule place f) (.resumed ((t.setFrame place f).schedule place p).1)
    ⟨((t.setFrame place f).schedule place p).2.1, ((t.setFrame place f).schedule place p).2.2⟩ :=
    ⟨rfl, nofun⟩
  exact .call step .refl

/-- A load that stops the kernel leaves the table as it is. -/
theorem loadAndRun_aborted {image : ExecutableImage} {p q : π}
    (hl : t.loadAndRun h image p = (.aborted, u, q)) : u = t := by
  rw [loadAndRun] at hl
  split at hl
  · cases hl
  · split at hl
    · cases hl
    · split at hl
      · cases hl
        rfl
      · cases hl
      · split at hl <;> cases hl

theorem moves_loadAndRun (t : ProcessTable) (h : ProcessHandle) (image : ExecutableImage) (p : π) :
    ∃ ops, Moves π t ops (t.loadAndRun h image p).2.1 ∧ ∀ o ∈ ops, o = .load h image := by
  rcases hl : t.loadAndRun h image p with ⟨answer, u, q⟩
  by_cases aborted : answer = .aborted
  · subst aborted
    obtain rfl := loadAndRun_aborted hl
    exact ⟨[], .refl, nofun⟩
  · have step : Step ⟨t, p⟩ (.load h image) (.loaded answer) ⟨u, q⟩ := by
      refine ⟨?_, fun stopped => aborted (Answer.loaded.inj stopped)⟩
      simp only [perform, hl]
    exact ⟨_, .call step .refl, by simp⟩

end ProcessTable

namespace Kernel

variable {π δ : Type} [Platform π] {k k' : Kernel π δ} {h : ProcessHandle}

theorem moves_operate (k : Kernel π δ) (op : Operation) :
    ∃ ops, Moves π k.processes ops (k.operate op).processes ∧ ∀ o ∈ ops, o = op := by
  have answered (other : ∀ h image, op ≠ .load h image) : ∃ ops,
      Moves π k.processes ops (k.operate op).processes ∧ ∀ o ∈ ops, o = op := by
    have step : Step ⟨k.processes, k.platform⟩ op (perform ⟨k.processes, k.platform⟩ op).1
        (perform ⟨k.processes, k.platform⟩ op).2 := by
      refine ⟨rfl, ?_⟩
      cases op with
      | load h image => exact absurd rfl (other h image)
      | _ => nofun
    exact ⟨[op], .call step .refl, by simp⟩
  cases op with
  | load h image => exact moves_loadAndRun k.processes h image k.platform
  | _ => exact answered nofun

theorem moves_spawnImage (k : Kernel π δ) (name : String) (image : ExecutableImage) :
    ∃ ops, Moves π k.processes ops (k.spawnImage name image).2.processes ∧
      ∀ o ∈ ops, ∀ h, o.subject = some h → h.pid = k.processes.nextPid := by
  rcases asked : image.entryPoint with c | entry <;> rw [spawnImage, asked]
  · exact ⟨[], .refl, by simp⟩
  · rcases hc : k.processes.create name entry true k.platform with ⟨result, t, p⟩
    have step : Step ⟨k.processes, k.platform⟩ (.create name entry true) (.created result) ⟨t, p⟩ := by
      constructor <;> simp [perform, hc]
    simp only [createProcess, hc]
    cases result with
    | error e => exact ⟨_, .call step .refl, by simp [Operation.subject]⟩
    | ok h =>
      obtain ⟨ops, moves, only⟩ := moves_loadAndRun t h image p
      obtain ⟨slot, _, _, _, _, -, -, -, -, rfl, -⟩ := create_stages hc
      refine ⟨_ :: ops, .call step ?_, ?_⟩
      · simp only [loadProcess]
        rcases hl : t.loadAndRun ⟨slot, k.processes.nextPid⟩ image p with ⟨info | e | _, u, q⟩ <;>
          rw [hl] at moves <;> exact moves
      · intro o ho h about
        rcases List.mem_cons.mp ho with rfl | ho
        · cases about
        · rw [only o ho] at about
          cases about
          rfl

variable [Services δ]

theorem moves_dispatch (k : Kernel π δ) (place : FramePlace) :
    ∃ ops, Moves π k.processes ops (k.dispatch place).2.processes ∧ ∀ o ∈ ops, o.subject = none := by
  rcases kind : TrapKind.classify (k.processes.frames place).vector.toNat with _ | line | _ | _ <;>
    rw [dispatch, kind]
  · exact ⟨[], .refl, by simp⟩
  · dsimp only
    rw [interrupt]
    dsimp only
    split
    · exact ⟨_, moves_schedule _ _ _ _, by simp [Operation.subject]⟩
    · exact ⟨[], .store .refl, by simp⟩
  · exact ⟨[], .store .refl, by simp⟩
  · exact ⟨[], .refl, by simp⟩

/-- The calls that an event makes are about what the event is about, or about a new process. -/
theorem moves_undergo (k : Kernel π δ) (event : KernelEvent δ) :
    ∃ ops, Moves π k.processes ops (k.undergo event).2.processes ∧
      ∀ o ∈ ops, ∀ h, o.subject = some h →
        event.subject = some h ∨ h.pid = k.processes.nextPid := by
  cases event with
  | trap place registers =>
    obtain ⟨ops, moves, none⟩ := (k.interruptedAt place registers).moves_dispatch place
    refine ⟨ops, .store moves, fun o ho h about => ?_⟩
    rw [none o ho] at about
    cases about
  | operate op =>
    obtain ⟨ops, moves, only⟩ := k.moves_operate op
    exact ⟨ops, moves, fun o ho h about => .inl (only o ho ▸ about)⟩
  | spawn name image =>
    obtain ⟨ops, moves, new⟩ := k.moves_spawnImage name image
    exact ⟨ops, moves, fun o ho h about => .inr (new o ho h about)⟩
  | _ => exact ⟨[], .refl, by simp⟩

theorem coherent_afterAll (coherent : Coherent k.processes) (events : List (KernelEvent δ)) :
    Coherent (k.afterAll events).processes := by
  induction events generalizing k with
  | nil => exact coherent
  | cons event events ih =>
    obtain ⟨ops, moves, -⟩ := k.moves_undergo event
    exact ih (moves.coherent coherent)

/-- A process that rests is never the current one, until an event is about it. -/
theorem rests_afterAll (coherent : Coherent k.processes) {state : ProcessState}
    (rests : Rests k.processes h state) (hrun : state ≠ .running) (hexit : state ≠ .exited)
    {events : List (KernelEvent δ)} (others : ∀ e ∈ events, e.subject ≠ some h) :
    Rests (k.afterAll events).processes h state ∧
      (k.afterAll events).processes.currentHandle ≠ h := by
  induction events generalizing k with
  | nil => exact ⟨rests, rests.currentHandle_ne coherent.toControlled hrun⟩
  | cons event events ih =>
    obtain ⟨away, others⟩ := List.forall_mem_cons.mp others
    obtain ⟨ops, moves, about⟩ := k.moves_undergo event
    refine ih (moves.coherent coherent) (moves.rests coherent rests hrun hexit ?_) others
    intro o ho subject
    obtain ⟨q, live, -⟩ := rests
    obtain ⟨hq, hpid⟩ := get_eq_ok.mp live
    rcases about o ho h subject with here | new
    · exact away here
    · have old := coherent.pid_lt hq
      omega

end Kernel
end KernelCore
