import KernelCore.Kernel
import KernelCore.Trace

/-!
# Routing of traps

Where a trap goes is decided by its vector alone, and before the handler of a line can change it. An
exception stops the processor. A device line gets the handler that was attached to it last, and then
one acknowledgement, which comes before whatever else the machine is asked. Only the timer line goes
on to another process. A system call and a stray vector end where they came from.
-/
namespace KernelCore

section LastEntries

variable {α : Type}

/-- The entry for a number that stands last in a list. -/
def lastFor (entries : List (Nat × α)) (number : Nat) : Option α :=
  (entries.reverse.find? fun e => e.1 = number).map Prod.snd

theorem lastFor_cons (first : Nat × α) (entries : List (Nat × α)) (number : Nat) :
    lastFor (first :: entries) number =
      (lastFor entries number).or (if first.1 = number then some first.2 else none) := by
  rw [lastFor, List.reverse_cons, List.find?_append, Option.map_or, lastFor]
  congr 1
  by_cases h : first.1 = number <;> simp [h]

end LastEntries

namespace InterruptLines

variable {δ : Type}

/-- A handler takes the place of the one before, and leaves all other lines alone. -/
theorem handler?_register [Journal δ] (t : InterruptLines δ) (number line : Nat)
    (handler : LineHandler δ) (services : δ) (known : line < lineCount) :
    (t.register number handler services).2.1.handler? line =
      (if number = line then some handler else none).or (t.handler? line) := by
  by_cases fits : number < lineCount
  · simp only [register, dif_pos fits, handler?, dif_pos known, Fin.mk.injEq]
    by_cases same : line = number
    · simp [same]
    · simp [same, Ne.symm same]
  · have other : number ≠ line := fun h => fits (h ▸ known)
    rw [register, dif_neg fits, if_neg other, Option.none_or]

/-- What a handler makes of a frame and of the services, each of which stays if there is none. -/
def answer (handler : Option (LineHandler δ)) (f : Trapframe) (services : δ) : Trapframe × δ :=
  match handler with
  | some handler => handler f services
  | none => (f, services)

theorem invoke_eq (t : InterruptLines δ) (line : Nat) (f : Trapframe) (services : δ) :
    (t.invoke line f services).2 = answer (t.handler? line) f services := by
  rw [invoke]
  cases t.handler? line <;> rfl

end InterruptLines

/-- The lines that the calls have acknowledged, the first one first. -/
def acknowledged (calls : List Call) : List Nat :=
  calls.filterMap fun
    | .endOfInterrupt line => some line
    | _ => none

section Silent

variable {π : Type}

/-- More may have been asked of the machine, but it has acknowledged no line. -/
def Silent (t u : Traced π) : Prop :=
  ∃ made, u.calls = t.calls ++ made ∧ acknowledged made = []

theorem Silent.refl (t : Traced π) : Silent t t := ⟨[], (List.append_nil _).symm, rfl⟩

theorem Silent.trans {t u v : Traced π} (h : Silent t u) (h' : Silent u v) : Silent t v := by
  obtain ⟨made, calls, none⟩ := h
  obtain ⟨more, calls', none'⟩ := h'
  refine ⟨made ++ more, by rw [calls', calls, List.append_assoc], ?_⟩
  rw [acknowledged, List.filterMap_append]
  exact List.append_eq_nil_iff.mpr ⟨none, none'⟩

theorem Silent.record (t : Traced π) {calls : List Call} (machine : π)
    (none : acknowledged calls = []) : Silent t (t.record calls machine) :=
  ⟨calls, t.calls_record calls machine, none⟩

theorem Silent.note [Platform π] (n : Notice) (t : Traced π) : Silent t (note n t) :=
  .record t _ rfl

end Silent

variable {π : Type} [Platform π]

/-- The report of an exception is the last thing before the processor stops. -/
theorem FatalGuard.calls_trap (g : FatalGuard) (f : Trapframe) (t : Traced π) :
    ∃ u, Silent t u ∧ (g.trap f t).2 = halt u := by
  rw [trap]
  split
  · exact ⟨t, .refl t, rfl⟩
  · have read : Silent t (accessedAddress f t).2 := by
      rw [accessedAddress]
      split
      · exact .record t _ rfl
      · exact .refl t
    refine ⟨_, read.trans ?_, rfl⟩
    rw [report]
    split
    · exact .refl _
    · exact .record _ _ rfl

namespace ProcessTable

theorem silent_switchMachine (old new : Process) (p : Traced π) :
    Silent p (switchMachine old new p) := by
  have entered : Silent p (if old.space = new.space then p else activate new.space p) := by
    split
    · exact .refl p
    · exact .record p _ rfl
  rw [switchMachine]
  generalize (if old.space = new.space then p else activate new.space p) = q at entered
  refine (entered.trans ?_).trans (.note _ _)
  split
  · exact .record q _ rfl
  · exact .refl q

/-- A tick acknowledges nothing itself. -/
theorem silent_schedule (t : ProcessTable) (place : FramePlace) (p : Traced π) :
    Silent p (t.schedule place p).2.2 := by
  rw [schedule]
  split
  · exact .refl p
  · split
    · exact .refl p
    · split
      · split
        · exact .refl p
        · exact silent_switchMachine _ _ p
      · exact .refl p

end ProcessTable

namespace Kernel

variable {δ : Type}

/-- The kernel after handlers were attached to lines, one after the other. -/
def attach [Journal δ] (k : Kernel π δ) (attached : List (Nat × LineHandler δ)) : Kernel π δ :=
  attached.foldl (fun k a => (k.registerLine a.1 a.2).2) k

omit [Platform π] in
/-- Attaching handlers changes nothing but what happens on their lines. -/
theorem attach_eq [Journal δ] (k : Kernel π δ) (attached : List (Nat × LineHandler δ)) :
    ∃ lines services, k.attach attached = { k with lines, services } ∧
      ∀ line < lineCount, lines.handler? line =
        (lastFor attached line).or (k.lines.handler? line) := by
  induction attached generalizing k with
  | nil => exact ⟨k.lines, k.services, rfl, fun _ _ => rfl⟩
  | cons first attached ih =>
    obtain ⟨lines, services, attached', found⟩ := ih (k.registerLine first.1 first.2).2
    refine ⟨lines, services, attached', fun line known => ?_⟩
    rw [found line known, lastFor_cons, Option.or_assoc]
    congr 1
    exact InterruptLines.handler?_register k.lines first.1 line first.2 k.services known

/-- How the interrupt of a line ends: its handler ran once, then the line was acknowledged, once and
before any other call, and if it is the timer's line the processor was passed on after that. -/
def Interrupted (handler : Option (LineHandler δ)) (line : Nat) (place : FramePlace)
    (k : Kernel (Traced π) δ) (r : Resumption) (k' : Kernel (Traced π) δ) : Prop :=
  ∃ f more,
    (f, k'.services) = InterruptLines.answer handler (k.processes.frames place) k.services ∧
    k'.fatal = k.fatal ∧
    k'.platform.calls = k.platform.calls ++ .endOfInterrupt line :: more ∧
    acknowledged more = [] ∧
    if line = timerLine then ∃ resumed, r = .resume resumed ∧
      (resumed, k'.processes, k'.platform) = (k.processes.setFrame place f).schedule place
        (endOfInterrupt line k.platform)
    else r = .resume place ∧ k'.processes = k.processes.setFrame place f ∧ more = []

theorem interrupt_line (k : Kernel (Traced π) δ) (line : Nat) (place : FramePlace) :
    Interrupted (k.lines.handler? line) line place k
      (k.interrupt line place).1 (k.interrupt line place).2 := by
  have ran := k.lines.invoke_eq line (k.processes.frames place) k.services
  rcases hi : k.lines.invoke line (k.processes.frames place) k.services with ⟨found, f, services⟩
  rw [hi] at ran
  have first : (endOfInterrupt line k.platform).calls =
      k.platform.calls ++ [.endOfInterrupt line] := k.platform.calls_record _ _
  by_cases timer : line = timerLine
  · obtain ⟨more, calls, none⟩ := ProcessTable.silent_schedule (k.processes.setFrame place f) place
      (endOfInterrupt line k.platform)
    rw [first, List.append_assoc] at calls
    have same : k.interrupt line place =
        let tick := (k.processes.setFrame place f).schedule place (endOfInterrupt line k.platform)
        (.resume tick.1, { k with services, processes := tick.2.1, platform := tick.2.2 }) := by
      simp only [interrupt, hi, if_pos timer]
    rw [Interrupted, same]
    refine ⟨f, more, ran, rfl, calls, none, ?_⟩
    rw [if_pos timer]
    exact ⟨_, rfl, rfl⟩
  · have same : k.interrupt line place = (.resume place,
        { k with services, processes := k.processes.setFrame place f,
                 platform := endOfInterrupt line k.platform }) := by
      simp only [interrupt, hi, if_neg timer]
    rw [Interrupted, same]
    refine ⟨f, [], ran, rfl, first, rfl, ?_⟩
    rw [if_neg timer]
    exact ⟨rfl, rfl, rfl⟩

variable [Services δ]

/-- How a trap with this vector ends, if `handler?` are the handlers of the lines. -/
structure Routed (vector : Nat) (handler? : Nat → Option (LineHandler δ)) (place : FramePlace)
    (k : Kernel (Traced π) δ) (r : Resumption) (k' : Kernel (Traced π) δ) : Prop where
  registered : k'.lines = k.lines ∧ k'.syscalls = k.syscalls
  /-- An exception stops the processor. -/
  exception (h : vector < exceptionCount) :
    r = .halted ∧ k'.processes = k.processes ∧ k'.services = k.services ∧
      ∃ reported, Silent k.platform reported ∧ k'.platform = halt reported
  line (line : Nat) (known : line < lineCount) (h : vector = vectorForLine line) :
    Interrupted (handler? line) line place k r k'
  /-- A system call ends where it came from, with its answer in one register. -/
  syscall (h : vector = syscallVector) :
    r = .resume place ∧ k'.fatal = k.fatal ∧ k'.platform.calls = k.platform.calls ∧
      ∃ rax, k'.processes =
        k.processes.setFrame place { k.processes.frames place with rax := rax }
  /-- Whatever else there is is noticed and nothing more. -/
  stray (h : exceptionCount + lineCount ≤ vector) (other : vector ≠ syscallVector) :
    r = .resume place ∧ ∃ n, k' = { k with platform := note n k.platform }

/-- A trap ends as its vector says, with the handlers that the kernel holds. -/
theorem routed_dispatch (k : Kernel (Traced π) δ) (place : FramePlace) :
    Routed (k.processes.frames place).vector.toNat k.lines.handler? place k
      (k.dispatch place).1 (k.dispatch place).2 where
  registered := by
    rw [dispatch]
    split
    · exact ⟨rfl, rfl⟩
    · rename_i line _
      rw [interrupt]
      dsimp only
      split <;> exact ⟨rfl, rfl⟩
    · exact ⟨rfl, rfl⟩
    · exact ⟨rfl, rfl⟩
  exception h := by
    have same : k.dispatch place = (.halted,
        let trapped := k.fatal.trap (k.processes.frames place) k.platform
        { k with fatal := trapped.1, platform := trapped.2 }) := by
      rw [dispatch, TrapKind.classify, if_pos h]
    rw [same]
    exact ⟨rfl, rfl, rfl, k.fatal.calls_trap _ _⟩
  line line known h := by
    have same : k.dispatch place = k.interrupt line place := by
      rw [dispatch, h, TrapKind.classify_vectorForLine known]
    rw [same]
    exact k.interrupt_line line place
  syscall h := by
    have same : k.dispatch place = (.resume place, k.serve place) := by
      rw [dispatch, h]
      rfl
    rw [same]
    exact ⟨rfl, rfl, rfl, _, rfl⟩
  stray h other := by
    have above : ¬ (k.processes.frames place).vector.toNat < exceptionCount := by omega
    have past : ¬ (firstLineVector ≤ (k.processes.frames place).vector.toNat ∧
        (k.processes.frames place).vector.toNat < firstLineVector + lineCount) := by
      rw [firstLineVector]
      rw [exceptionCount] at h
      omega
    rw [dispatch, TrapKind.classify, if_neg above, if_neg past, if_neg other]
    exact ⟨rfl, _, rfl⟩

/-- Every trap is routed by its vector, with the handlers that were attached last. -/
theorem dispatch_routes (k : Kernel (Traced π) δ) (attached : List (Nat × LineHandler δ))
    (place : FramePlace) :
    Routed (k.processes.frames place).vector.toNat
      (fun line => (lastFor attached line).or (k.lines.handler? line)) place
      (k.attach attached) ((k.attach attached).dispatch place).1
      ((k.attach attached).dispatch place).2 := by
  obtain ⟨lines, services, same, found⟩ := k.attach_eq attached
  rw [same]
  have routed := routed_dispatch { k with lines, services } place
  refine { routed with line := fun line known h => ?_ }
  rw [← found line known]
  exact routed.line line known h

end Kernel

end KernelCore
