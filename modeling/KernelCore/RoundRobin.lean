import KernelCore.ProcessTable

/-!
# Round robin

On every tick of the timer the running process gives way to the next one that can run, in circular
order of the slots. Its frame is saved where the trap left it; the frame to resume is the answer.
-/
namespace KernelCore.ProcessTable

/-- A slot holds a process that may run next. -/
def runnableSlot (t : ProcessTable) (slot : Fin maxProcesses) : Bool :=
  (t.slots slot).any Process.runnable

/-- The slots in circular order from the one after `slot` on. -/
def slotsAfter (slot : Nat) : List (Fin maxProcesses) :=
  (List.range maxProcesses).map fun i => ⟨(slot + (i + 1)) % maxProcesses, Nat.mod_lt _ (by decide)⟩

/-- The first slot after `slot` whose process may run. -/
def nextRunnableAfter (t : ProcessTable) (slot : Nat) : Option (Fin maxProcesses) :=
  (slotsAfter slot).find? t.runnableSlot

/-- Notes where the registers of the running process were saved. -/
def saveCurrent (t : ProcessTable) (place : FramePlace) : ProcessTable :=
  t.setSlot t.current ((t.slots t.current).map fun q => { q with saved := some place })

/-- A process that was running until now is ready to run again. -/
def preempted (q : Process) : Process :=
  if q.state = .running then { q with state := .ready } else q

/-- The table in which the process of slot `next` is running in place of the current one. -/
def handOver (t : ProcessTable) (next : Fin maxProcesses) : ProcessTable :=
  let t' := t.setSlot t.current ((t.slots t.current).map preempted)
  { t'.setSlot next ((t'.slots next).map fun q => { q with state := .running }) with
    current := next }

variable {π : Type} [Platform π]

/-- Tells the machine that one process runs in place of another. -/
def switchMachine (old new : Process) (p : π) : π :=
  let p := if old.space = new.space then p else activate new.space p
  let p :=
    match new.userland, new.trapStackTop with
    | true, some top => setKernelStack top p
    | _, _ => p
  note (.trace ("sched: pid " ++ toString old.pid ++ " -> pid " ++ toString new.pid)) p

/-- A tick: saves the frame of the running process and answers with the frame to resume. That is the
frame of the next process that can run, or the one given if there is no other. -/
def schedule (t : ProcessTable) (place : FramePlace) (p : π) : FramePlace × ProcessTable × π :=
  let t := t.saveCurrent place
  match t.nextRunnableAfter t.current with
  | none => (place, t, p)
  | some next =>
    if next = t.current then (place, t, p)
    else
      match t.slots t.current, t.slots next with
      | some old, some new =>
        match new.saved with
        | none => (place, t, p)
        | some resumed => (resumed, t.handOver next, switchMachine old new p)
      | _, _ => (place, t, p)

end KernelCore.ProcessTable
