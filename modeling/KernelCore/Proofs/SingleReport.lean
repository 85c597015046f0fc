import KernelCore.Desk
import KernelCore.Proofs.SteadyViews
import KernelCore.Proofs.TableRuns
import KernelCore.Proofs.TrapRouting

/-!
# One report

Of all exceptions in the life of a machine only the first is reported, and every one of them stops
the processor. Nothing but an exception reads the address of a fault, writes a report, stops the
processor or touches the guard: `Traced.fatalCalls` is steady throughout, and `undergone` says what
one event adds to it. The calls of a whole life follow by induction over its events, for a guard of
either kind.
-/
namespace KernelCore

/-- The calls that are made for an exception. -/
def Call.isFatal : Call → Bool
  | .readFaultAddress | .dump _ | .halt => true
  | _ => false

/-- The report that a call writes. -/
def Call.report? : Call → Option FaultReport
  | .dump report => some report
  | _ => none

namespace Traced

variable {π : Type} [Platform π]

/-- The calls that were made for exceptions, the first one first. -/
def fatalCalls (t : Traced π) : List Call := t.calls.filter Call.isFatal

omit [Platform π] in
theorem fatalCalls_record (t : Traced π) (calls : List Call) (machine : π) :
    (t.record calls machine).fatalCalls = t.fatalCalls ++ calls.filter Call.isFatal := by
  rw [fatalCalls, calls_record, List.filter_append, fatalCalls]

omit [Platform π] in
theorem fatalCalls_ordinary (t : Traced π) {calls : List Call} (machine : π)
    (ordinary : calls.filter Call.isFatal = []) :
    (t.record calls machine).fatalCalls = t.fatalCalls := by
  rw [fatalCalls_record, ordinary, List.append_nil]

omit [Platform π] in
theorem fatalCalls_transfer (t : Traced π) {c : Call} (ordinary : c.isFatal = false)
    (stop : Option Nat) (machine : π) :
    (t.record (transfer c stop) machine).fatalCalls = t.fatalCalls := by
  have stopped (a : Nat) : (Call.unreachable a).isFatal = false := rfl
  apply fatalCalls_ordinary
  cases stop with
  | none => simp [transfer, ordinary]
  | some a => simp [transfer, ordinary, stopped]

theorem steady_fatalCalls : SteadyThroughout (π := Traced π) fatalCalls where
  view_allocateFrame t := t.fatalCalls_ordinary _ rfl
  view_releaseFrame _ t := t.fatalCalls_ordinary _ rfl
  view_createSpace t := t.fatalCalls_ordinary _ rfl
  view_releaseSpace _ t := t.fatalCalls_ordinary _ rfl
  view_mapPage _ _ _ _ t := t.fatalCalls_ordinary _ rfl
  view_unmapPage _ _ t := t.fatalCalls_ordinary _ rfl
  view_zeroRange _ _ t := t.fatalCalls_transfer rfl _ _
  view_copyIn _ _ t := t.fatalCalls_transfer rfl _ _
  view_note _ t := t.fatalCalls_ordinary _ rfl
  view_activate _ t := t.fatalCalls_ordinary _ rfl
  view_setKernelStack _ t := t.fatalCalls_ordinary _ rfl
  view_endOfInterrupt _ t := t.fatalCalls_ordinary _ rfl
  view_setMemory _ t := t.fatalCalls_ordinary _ rfl

end Traced

/-- What happens to a kernel: a trap, which leaves the registers of the interrupted program at some
place, a call on the process table, or the registration of a handler. -/
inductive KernelEvent (δ : Type) where
  | trap (place : FramePlace) (registers : Trapframe)
  | operate (op : Operation)
  | spawn (name : String) (image : ExecutableImage)
  | attachLine (line : Nat) (handler : LineHandler δ)
  | attachSyscall (number : Nat) (handler : SyscallHandler δ)
  | attachDefaults

/-- The registers at an exception. -/
def KernelEvent.exception? {δ : Type} : KernelEvent δ → Option Trapframe
  | .trap _ f => if f.vector.toNat < exceptionCount then some f else none
  | _ => none

section Steady

variable {π α δ : Type} [Platform π] {view : π → α}

theorem SteadyThroughout.view_perform (h : SteadyThroughout view) (s : TableState π)
    (op : Operation) : view (s.perform op).2.machine = view s.machine := by
  cases op with
  | create name entry userland => exact h.view_create s.table name entry userland s.machine
  | load handle image => exact h.view_loadAndRun s.table handle image s.machine
  | reap => exact h.view_reap s.table s.machine
  | schedule place registers => exact h.view_schedule _ place s.machine
  | prepare handle => rfl
  | exit handle => rfl

theorem SteadyThroughout.view_spawnImage (h : SteadyThroughout view) (k : Kernel π δ) (name : String)
    (image : ExecutableImage) :
    view (k.spawnImage name image).2.platform = view k.platform ∧
      (k.spawnImage name image).2.fatal = k.fatal := by
  rw [Kernel.spawnImage]
  split
  · exact ⟨rfl, rfl⟩
  · rename_i entry _
    have created := h.view_create k.processes name entry true k.platform
    rcases hc : k.processes.create name entry true k.platform with ⟨e | handle, t, p⟩
    · rw [hc] at created
      simp only [Kernel.createProcess, hc]
      exact ⟨created, trivial⟩
    · rw [hc] at created
      have loaded := h.view_loadAndRun t handle image p
      simp only [Kernel.createProcess, hc, Kernel.loadProcess]
      rcases hl : t.loadAndRun handle image p with ⟨info | e | _, u, q⟩ <;> rw [hl] at loaded <;>
        exact ⟨loaded.trans created, rfl⟩

theorem SteadyThroughout.view_dispatch [Services δ] (h : SteadyThroughout view) (k : Kernel π δ)
    (place : FramePlace)
    (ordinary : ¬ (k.processes.frames place).vector.toNat < exceptionCount) :
    view (k.dispatch place).2.platform = view k.platform ∧
      (k.dispatch place).2.fatal = k.fatal := by
  rw [Kernel.dispatch]
  split
  · rename_i exceptional
    simp only [TrapKind.classify, if_neg ordinary] at exceptional
    split at exceptional
    · cases exceptional
    · split at exceptional <;> cases exceptional
  · rename_i line _
    rw [Kernel.interrupt]
    have acknowledged := h.view_endOfInterrupt line k.platform
    dsimp only
    split
    · exact ⟨(h.view_schedule _ place _).trans acknowledged, rfl⟩
    · exact ⟨acknowledged, rfl⟩
  · exact ⟨h.view_setMemory _ k.platform, rfl⟩
  · exact ⟨h.view_note _ k.platform, rfl⟩

end Steady

namespace Kernel

variable {π δ : Type} [Platform π]

/-- The kernel after a trap has stored the registers of the interrupted program. -/
def interruptedAt (k : Kernel π δ) (place : FramePlace) (registers : Trapframe) : Kernel π δ :=
  { k with processes := k.processes.setFrame place registers }

def operate (k : Kernel π δ) (op : Operation) : Kernel π δ :=
  let s := (TableState.perform ⟨k.processes, k.platform⟩ op).2
  { k with processes := s.table, platform := s.machine }

variable [Services δ]

/-- What the kernel is after an event, and how the trap ended if it was one. -/
def undergo (k : Kernel π δ) : KernelEvent δ → Option Resumption × Kernel π δ
  | .trap place registers =>
    let (ending, k) := (k.interruptedAt place registers).dispatch place
    (some ending, k)
  | .operate op => (none, k.operate op)
  | .spawn name image => (none, (k.spawnImage name image).2)
  | .attachLine line handler => (none, (k.registerLine line handler).2)
  | .attachSyscall number handler => (none, (k.registerSyscall number handler).2)
  | .attachDefaults => (none, k.registerDefaults.2)

end Kernel

/-- An event in the life of a kernel, and the kernel as it was before. -/
structure Happening (π δ : Type) where
  before : Kernel π δ
  event : KernelEvent δ

namespace Happening

variable {π δ : Type} [Platform π]

/-- The report of an exception: its registers, and for a page fault the address that the processor
holds then. -/
def reportOf (k : Kernel π δ) (f : Trapframe) : FaultReport :=
  ⟨f, if f.vector.toNat = pageFaultVector then some (readFaultAddress k.platform).1 else none⟩

/-- What an exception adds that finds the guard unused, before the processor stops. -/
def alarm (k : Kernel π δ) (f : Trapframe) : List Call :=
  (if f.vector.toNat = pageFaultVector then [.readFaultAddress] else []) ++ [.dump (reportOf k f)]

variable [Services δ]

def ending (h : Happening π δ) : Option Resumption := (h.before.undergo h.event).1

def after (h : Happening π δ) : Kernel π δ := (h.before.undergo h.event).2

end Happening

namespace Kernel

open Happening

variable {π δ : Type} [Platform π]

/-- The guard decides whether there is an alarm. The processor stops in any case. -/
theorem fatalCalls_trap (k : Kernel (Traced π) δ) (f : Trapframe) :
    (k.fatal.trap f k.platform).2.fatalCalls =
      k.platform.fatalCalls ++ ((if k.fatal.active then [] else alarm k f) ++ [.halt]) := by
  have stopped (t : Traced π) : (halt t).fatalCalls = t.fatalCalls ++ [.halt] :=
    t.fatalCalls_record _ _
  have written (r : FaultReport) (t : Traced π) : (dump r t).fatalCalls = t.fatalCalls ++ [.dump r] :=
    t.fatalCalls_record _ _
  have read : (readFaultAddress k.platform).2.fatalCalls =
      k.platform.fatalCalls ++ [.readFaultAddress] := k.platform.fatalCalls_record _ _
  cases used : k.fatal.active with
  | true =>
    simp only [FatalGuard.trap, used, if_true]
    exact stopped k.platform
  | false =>
    by_cases pageFault : f.vector.toNat = pageFaultVector
    · simp [FatalGuard.trap, used, FatalGuard.accessedAddress, pageFault, FatalGuard.report, stopped,
        written, read, alarm, reportOf]
    · simp [FatalGuard.trap, used, FatalGuard.accessedAddress, pageFault, FatalGuard.report, stopped,
        written, alarm, reportOf]

variable [Services δ]

/-- How an event ends, by what it is. -/
structure Undergone (k : Kernel (Traced π) δ) (event : KernelEvent δ) (ending : Option Resumption)
    (k' : Kernel (Traced π) δ) : Prop where
  ordinary (h : event.exception? = none) :
    k'.platform.fatalCalls = k.platform.fatalCalls ∧ k'.fatal = k.fatal
  exception (f : Trapframe) (h : event.exception? = some f) :
    ending = some .halted ∧ k'.fatal.active = true ∧
      (∃ reported, k'.platform = halt reported) ∧
      k'.platform.fatalCalls =
        k.platform.fatalCalls ++ ((if k.fatal.active then [] else alarm k f) ++ [.halt])

theorem undergone (k : Kernel (Traced π) δ) (event : KernelEvent δ) :
    Undergone k event (k.undergo event).1 (k.undergo event).2 := by
  have steady := Traced.steady_fatalCalls (π := π)
  cases event with
  | trap place registers =>
    have found : (k.interruptedAt place registers).processes.frames place = registers :=
      k.processes.frames_setFrame_self place registers
    constructor
    · intro h
      have ordinary : ¬ registers.vector.toNat < exceptionCount := by
        intro fault
        simp [KernelEvent.exception?, fault] at h
      rw [← found] at ordinary
      exact steady.view_dispatch (k.interruptedAt place registers) place ordinary
    · intro f h
      by_cases fault : registers.vector.toNat < exceptionCount
      · obtain rfl : registers = f := by simpa [KernelEvent.exception?, fault] using h
        have same : (k.interruptedAt place registers).dispatch place = (.halted,
            let trapped := k.fatal.trap registers k.platform
            { k.interruptedAt place registers with fatal := trapped.1, platform := trapped.2 }) := by
          rw [dispatch, found, TrapKind.classify, if_pos fault]
          rfl
        rw [undergo, same]
        obtain ⟨reported, -, stopped⟩ := k.fatal.calls_trap registers k.platform
        exact ⟨rfl, k.fatal.active_trap registers k.platform, ⟨reported, stopped⟩,
          k.fatalCalls_trap registers⟩
      · simp [KernelEvent.exception?, fault] at h
  | operate op => exact ⟨fun _ => ⟨steady.view_perform ⟨k.processes, k.platform⟩ op, rfl⟩, fun _ h => by cases h⟩
  | spawn name image => exact ⟨fun _ => steady.view_spawnImage k name image, fun _ h => by cases h⟩
  | attachLine line handler => exact ⟨fun _ => ⟨rfl, rfl⟩, fun _ h => by cases h⟩
  | attachSyscall number handler => exact ⟨fun _ => ⟨rfl, rfl⟩, fun _ h => by cases h⟩
  | attachDefaults => exact ⟨fun _ => ⟨rfl, rfl⟩, fun _ h => by cases h⟩

/-- The events one after the other, each with the kernel that it finds. -/
def history (k : Kernel π δ) : List (KernelEvent δ) → List (Happening π δ)
  | [] => []
  | event :: events => ⟨k, event⟩ :: (k.undergo event).2.history events

/-- The kernel after all the events. -/
def afterAll (k : Kernel π δ) (events : List (KernelEvent δ)) : Kernel π δ :=
  events.foldl (fun k event => (k.undergo event).2) k

end Kernel

namespace Happening

open Kernel

variable {π δ : Type} [Platform π]

/-- The exceptions among the events, each with the kernel that it finds and the registers at it. -/
def exceptions (history : List (Happening π δ)) : List (Kernel π δ × Trapframe) :=
  history.filterMap fun h => h.event.exception?.map fun f => (h.before, f)

/-- The calls that are made for exceptions, if the guard was used or not before them. -/
def trail (used : Bool) : List (Kernel π δ × Trapframe) → List Call
  | [] => []
  | (k, f) :: later => (if used then [] else alarm k f) ++ List.replicate (later.length + 1) .halt

theorem trail_cons (used : Bool) (k : Kernel π δ) (f : Trapframe)
    (later : List (Kernel π δ × Trapframe)) :
    trail used ((k, f) :: later) =
      ((if used then [] else alarm k f) ++ [.halt]) ++ trail true later := by
  cases later with
  | nil => simp [trail]
  | cons _ later => simp [trail, List.replicate_succ]

variable [Services δ]

theorem fatalCalls_afterAll (k : Kernel (Traced π) δ) (events : List (KernelEvent δ)) :
    (k.afterAll events).platform.fatalCalls =
        k.platform.fatalCalls ++ trail k.fatal.active (exceptions (k.history events)) ∧
      ((k.afterAll events).fatal.active = true ↔
        k.fatal.active = true ∨ exceptions (k.history events) ≠ []) := by
  induction events generalizing k with
  | nil => simp [afterAll, Kernel.history, exceptions, trail]
  | cons event events ih =>
    obtain ⟨calls, used⟩ := ih (k.undergo event).2
    have step := k.undergone event
    change ((k.undergo event).2.afterAll events).platform.fatalCalls = _ ∧
      (((k.undergo event).2.afterAll events).fatal.active = true ↔ _)
    rw [calls, used]
    cases kind : event.exception? with
    | none =>
      obtain ⟨same, guard⟩ := step.ordinary kind
      have later : exceptions (k.history (event :: events)) =
          exceptions ((k.undergo event).2.history events) := by
        simp [Kernel.history, exceptions, kind]
      rw [later, same, guard]
      exact ⟨rfl, Iff.rfl⟩
    | some f =>
      obtain ⟨-, active, -, made⟩ := step.exception f kind
      have first : exceptions (k.history (event :: events)) =
          (k, f) :: exceptions ((k.undergo event).2.history events) := by
        simp [Kernel.history, exceptions, kind]
      rw [first, trail_cons, made, active, List.append_assoc]
      exact ⟨rfl, by simp⟩

omit [Services δ] in
theorem reports_trail (exceptions : List (Kernel π δ × Trapframe)) :
    (trail false exceptions).filterMap Call.report? =
      (exceptions.head?.map fun e => reportOf e.1 e.2).toList := by
  cases exceptions with
  | nil => rfl
  | cons first later =>
    obtain ⟨k, f⟩ := first
    have silent (n : Nat) : (List.replicate n Call.halt).filterMap Call.report? = [] := by
      simp [List.filterMap_eq_nil_iff, Call.report?]
    have written : (alarm k f).filterMap Call.report? = [reportOf k f] := by
      rw [alarm]
      split <;> rfl
    simp only [trail, Bool.false_eq_true, if_false, List.filterMap_append, written, silent]
    rfl

omit [Services δ] in
theorem reads_trail (exceptions : List (Kernel π δ × Trapframe)) :
    (trail false exceptions).count .readFaultAddress =
      if exceptions.head?.any fun e => e.2.vector.toNat = pageFaultVector then 1 else 0 := by
  cases exceptions with
  | nil => rfl
  | cons first later =>
    obtain ⟨k, f⟩ := first
    by_cases pageFault : f.vector.toNat = pageFaultVector <;>
      simp [trail, alarm, pageFault, List.count_replicate]

omit [Services δ] in
theorem halts_trail (exceptions : List (Kernel π δ × Trapframe)) :
    (trail false exceptions).count .halt = exceptions.length := by
  cases exceptions with
  | nil => rfl
  | cons first later =>
    obtain ⟨k, f⟩ := first
    by_cases pageFault : f.vector.toNat = pageFaultVector <;>
      simp [trail, alarm, pageFault]

theorem map_event_history (k : Kernel π δ) (events : List (KernelEvent δ)) :
    (k.history events).map Happening.event = events := by
  induction events generalizing k with
  | nil => rfl
  | cons event events ih => exact congrArg (event :: ·) (ih _)

end Happening

namespace Kernel

open Happening

variable {π δ : Type} [Platform π] [Services δ]

/-- Whatever happens to a kernel whose guard is unused, the reports written are the one of the first
exception, if there is one. The address of a fault is read once if that is a page fault, and
otherwise never. Every exception stops the processor, the guard stays in use from the first one on,
and nothing else uses it. -/
theorem reported_once (k : Kernel (Traced π) δ) (fresh : k.fatal.active = false)
    (events : List (KernelEvent δ)) :
    let faults := exceptions (k.history events)
    (k.history events).map Happening.event = events ∧
    (∃ made, (k.afterAll events).platform.fatalCalls = k.platform.fatalCalls ++ made ∧
      made.filterMap Call.report? = (faults.head?.map fun e => reportOf e.1 e.2).toList ∧
      made.count .readFaultAddress =
        (if faults.head?.any fun e => e.2.vector.toNat = pageFaultVector then 1 else 0) ∧
      made.count .halt = faults.length) ∧
    (∀ h ∈ k.history events, ∀ f, h.event.exception? = some f →
      h.ending = some .halted ∧ ∃ reported, h.after.platform = halt reported) ∧
    (∀ h ∈ k.history events, h.before.fatal.active = true → h.after.fatal.active = true) ∧
    ((k.afterAll events).fatal.active = true ↔ faults ≠ []) := by
  intro faults
  obtain ⟨calls, used⟩ := fatalCalls_afterAll k events
  rw [fresh] at calls used
  refine ⟨map_event_history k events, ⟨_, calls, reports_trail faults, reads_trail faults,
    halts_trail faults⟩, ?_, ?_, used.trans (by simp [faults])⟩
  · intro h _ f kind
    obtain ⟨halted, -, stopped, -⟩ := (h.before.undergone h.event).exception f kind
    exact ⟨halted, stopped⟩
  · intro h _ active
    cases kind : h.event.exception? with
    | none =>
      obtain ⟨-, same⟩ := (h.before.undergone h.event).ordinary kind
      exact (congrArg FatalGuard.active same).trans active
    | some f => exact ((h.before.undergone h.event).exception f kind).2.1

/-- A kernel of which nothing was asked yet. -/
def untouched : Kernel (Traced FlatMachine) Desk := .new ⟨{}, []⟩ {}

def pageFault : Trapframe := { vector := 14, rip := 0x1000 }

/-- A page fault between two system calls, then a tick and another exception. -/
def twoFaults : List (KernelEvent Desk) :=
  [.attachDefaults, .trap (.outside 0) (.forVector 0x80), .trap (.outside 0) pageFault,
    .trap (.outside 0) (.forVector 0x80), .trap (.outside 0) (.forVector 32),
    .trap (.outside 0) (.forVector 13)]

theorem reported_once_two_faults : untouched.fatal.active = false ∧
    ∃ made, (untouched.afterAll twoFaults).platform.fatalCalls = made ∧
      made.filterMap Call.report? = [⟨pageFault, some 0⟩] ∧
      made.count .readFaultAddress = 1 ∧ made.count .halt = 2 := by
  obtain ⟨-, ⟨made, calls, reports, reads, halts⟩, -⟩ := reported_once untouched rfl twoFaults
  exact ⟨rfl, made, calls, reports, reads, halts⟩

end Kernel
end KernelCore
