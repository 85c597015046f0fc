import KernelCore.FlatMachine
import KernelCore.RoundRobin

/-!
# Runs of the process table

The six calls that change the process table, as data, and runs of them in any order. A call that
aborts stops the kernel, so a run goes on after every other answer. The calls take any handle, so
also those of processes that are gone, and the machine is any type, so each of its calls may fail
whenever it likes.
-/
namespace KernelCore

/-- A call on the process table. A tick comes with the place of the frame that the running process
was interrupted at and with its registers, which the trap has stored there. -/
inductive Operation where
  | create (name : String) (entry : Nat) (userland : Bool)
  | prepare (h : ProcessHandle)
  | load (h : ProcessHandle) (image : ExecutableImage)
  | exit (h : ProcessHandle)
  | reap
  | schedule (place : FramePlace) (registers : Trapframe)

/-- The handle of the process that is created first. -/
def ProcessHandle.first : ProcessHandle := ⟨⟨1, by decide⟩, 2⟩

/-- The handle of the kernel's own process. -/
def ProcessHandle.kernel : ProcessHandle := ⟨kernelSlot, 1⟩

/-- The process that a call is about, as it was named. -/
def Operation.subject : Operation → Option ProcessHandle
  | .prepare h | .load h _ | .exit h => some h
  | .create .. | .reap | .schedule .. => none

/-- The call is a tick. -/
def Operation.isTick : Operation → Bool
  | .schedule .. => true
  | .create .. | .prepare _ | .load .. | .exit _ | .reap => false

theorem Operation.tick_cases (op : Operation) :
    (∃ place registers, op = .schedule place registers) ∨
      ∀ place registers, op ≠ .schedule place registers := by
  cases op with
  | schedule place registers => exact .inl ⟨place, registers, rfl⟩
  | _ => exact .inr fun _ _ h => nomatch h

/-- What a call answers. -/
inductive Answer where
  | created (result : Except ProcessError ProcessHandle)
  | prepared (result : Except ProcessError FramePlace)
  | loaded (result : Outcome ProcessError LoadedImage)
  | exited (result : Except ProcessError Unit)
  | reaped (count : Nat)
  | resumed (place : FramePlace)

instance (a : Answer) : Decidable (a = .loaded .aborted) :=
  match a with
  | .loaded .aborted => isTrue rfl
  | .loaded (.ok _) | .loaded (.error _) => isFalse nofun
  | .created _ | .prepared _ | .exited _ | .reaped _ | .resumed _ => isFalse nofun

/-- The call could not load an image for the process. -/
def FailedLoad (h : ProcessHandle) (op : Operation) (a : Answer) : Prop :=
  ∃ image cause, op = .load h image ∧ a = .loaded (.error (.load cause))

/-- A process table and the machine below it. -/
structure TableState (π : Type) where
  table : ProcessTable
  machine : π

namespace TableState

variable {π : Type} [Platform π]

/-- Whatever is running becomes the kernel's own process. -/
def start (p : π) : TableState π := ⟨.new (activeSpace p), p⟩

/-- The table on a flat machine at the start. -/
def flatStart : TableState FlatMachine := start {}

/-- Makes a call. -/
def perform (s : TableState π) : Operation → Answer × TableState π
  | .create name entry userland =>
    let (result, table, machine) := s.table.create name entry userland s.machine
    (.created result, ⟨table, machine⟩)
  | .prepare h =>
    let (result, table) := s.table.prepareForRun h
    (.prepared result, { s with table })
  | .load h image =>
    let (result, table, machine) := s.table.loadAndRun h image s.machine
    (.loaded result, ⟨table, machine⟩)
  | .exit h =>
    let (result, table) := s.table.exit h
    (.exited result, { s with table })
  | .reap =>
    let (count, table, machine) := s.table.reap s.machine
    (.reaped count, ⟨table, machine⟩)
  | .schedule place registers =>
    let (place, table, machine) := (s.table.setFrame place registers).schedule place s.machine
    (.resumed place, ⟨table, machine⟩)

/-- A call that is answered. -/
def Step (s : TableState π) (op : Operation) (a : Answer) (s' : TableState π) : Prop :=
  s.perform op = (a, s') ∧ a ≠ .loaded .aborted

/-- One call of a run: the state in which it was made, the call and its answer. -/
structure Event (π : Type) where
  before : TableState π
  operation : Operation
  answer : Answer

/-- The state after the call. -/
def Event.after (e : Event π) : TableState π := (e.before.perform e.operation).2

/-- Number of ticks. -/
def ticks (history : List (Event π)) : Nat := history.countP fun e => e.operation.isTick

/-- Calls one after the other, with what happened, the first call first. -/
inductive Run (s : TableState π) : List (Event π) → TableState π → Prop where
  | refl : Run s [] s
  | step {history t op a u} (run : Run s history t) (last : Step t op a u) :
      Run s (history ++ [⟨t, op, a⟩]) u

/-- The calls made one after the other, each with what it answers. -/
def record (s : TableState π) : List Operation → List (Event π)
  | [] => []
  | op :: ops => ⟨s, op, (s.perform op).1⟩ :: record (s.perform op).2 ops

/-- The state that the calls lead to. -/
def after (s : TableState π) (ops : List Operation) : TableState π :=
  ops.foldl (fun s op => (s.perform op).2) s

/-- A state that the calls lead to from the start. -/
def Reachable (p : π) (s : TableState π) : Prop := ∃ history, Run (start p) history s

/-- What holds at the start of a run and is kept by every call of it holds at its end. -/
theorem Run.invariant {s u : TableState π} {history : List (Event π)} (run : Run s history u)
    (inv : TableState π → Prop) (first : inv s)
    (keep : ∀ e ∈ history, ∀ v, inv e.before → Step e.before e.operation e.answer v → inv v) :
    inv u := by
  induction run with
  | refl => exact first
  | @step history t op a u run last ih =>
    refine keep ⟨t, op, a⟩ (by simp) u (ih ?_) last
    intro e he
    exact keep e (by simp [he])

theorem Run.append {s t u : TableState π} {first second : List (Event π)} (h : Run s first t)
    (h' : Run t second u) : Run s (first ++ second) u := by
  induction h' with
  | refl => simpa using h
  | step run last ih =>
    rw [← List.append_assoc]
    exact ih.step last

/-- A run leads up to each of its calls, and on from there. -/
theorem Run.split {s u : TableState π} {history : List (Event π)} (run : Run s history u)
    {e : Event π} (he : e ∈ history) :
    ∃ earlier later v, Run s earlier e.before ∧ Step e.before e.operation e.answer v ∧
      Run v later u ∧ history = earlier ++ e :: later := by
  induction run with
  | refl => cases he
  | @step history t op a u run last ih =>
    rcases List.mem_append.mp he with he | he
    · obtain ⟨earlier, later, v, before, step, after, rfl⟩ := ih he
      exact ⟨earlier, _, v, before, step, after.step last, by simp⟩
    · obtain rfl := List.mem_singleton.mp he
      exact ⟨history, [], u, run, last, .refl, rfl⟩

/-- Calls that are all answered make a run. -/
theorem run_record (s : TableState π) (ops : List Operation)
    (answered : ∀ e ∈ s.record ops, e.answer ≠ .loaded .aborted) :
    Run s (s.record ops) (s.after ops) := by
  induction ops generalizing s with
  | nil => exact .refl
  | cons op ops ih =>
    have hfirst : Run s [⟨s, op, (s.perform op).1⟩] (s.perform op).2 :=
      Run.refl.step ⟨rfl, answered ⟨s, op, (s.perform op).1⟩ List.mem_cons_self⟩
    have hrest := ih (s.perform op).2 fun e he => answered e (List.mem_cons_of_mem _ he)
    exact hfirst.append hrest

end TableState
end KernelCore
