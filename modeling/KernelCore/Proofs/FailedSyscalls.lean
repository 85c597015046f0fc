import KernelCore.Proofs.SyscallConfinement

/-!
# System calls that fail

A handler checks everything that it was given before it does anything. So a call that fails has
stored nothing, has taken no input and no event, and has asked nothing of the services, but for one
request: whether a window is there to draw in is known to the window service alone, and it is the
service that refuses.
-/
namespace KernelCore

variable {δ : Type} [Services δ]

/-- The services with these notices in their journal, and nothing else done. -/
def noted (notices : List Notice) (d : δ) : δ := notices.foldl (fun d n => Journal.note n d) d

theorem noted_append (notices more : List Notice) (d : δ) :
    noted (notices ++ more) d = noted more (noted notices d) := List.foldl_append

/-- The window service was asked to draw or to fill, and refused. -/
inductive Refused (d d' : δ) : Prop where
  | text {window : UInt64} {x y : Int32} {text : String} {color : UInt32}
      (refused : Services.drawText window x y text color d = (false, d'))
  | rect {window : UInt64} {rect : Rect} {color : UInt32}
      (refused : Services.fillRect window rect color d = (false, d'))

namespace Handlers

/-- Whenever the handler fails, memory is as before, and so are the services unless they refused to
draw. -/
def FailsCleanly (handler : SyscallHandler δ) : Prop :=
  ∀ {c env env' e}, handler c env = (.error e, env') →
    env'.memory = env.memory ∧
      (env'.services = env.services ∨ Refused env.services env'.services)

variable {c : SyscallContext} {env env' : Env δ} {e : SyscallError}

omit [Services δ] in
theorem drawn_eq_error {done : Bool} (h : drawn done = .error e) : done = false := by
  cases done with
  | false => rfl
  | true => cases h

theorem exit_failsCleanly : FailsCleanly (exit : SyscallHandler δ) := nofun

theorem getChar_failsCleanly : FailsCleanly (getChar : SyscallHandler δ) := by
  intro c env env' e h
  rw [getChar] at h
  split at h <;> cases h

theorem read_failsCleanly : FailsCleanly (read : SyscallHandler δ) := by
  intro c env env' e h
  rw [read] at h
  split at h
  · cases h
    exact ⟨rfl, .inl rfl⟩
  · split at h
    · cases h
      exact ⟨rfl, .inl rfl⟩
    · cases h

theorem write_failsCleanly : FailsCleanly (write : SyscallHandler δ) := by
  intro c env env' e h
  rw [write] at h
  split at h
  · cases h
    exact ⟨rfl, .inl rfl⟩
  · split at h
    · cases h
      exact ⟨rfl, .inl rfl⟩
    · cases h

theorem windowOpen_failsCleanly : FailsCleanly (windowOpen : SyscallHandler δ) := by
  intro c env env' e h
  rw [windowOpen] at h
  dsimp only at h
  split at h
  · cases h
    exact ⟨rfl, .inl rfl⟩
  · cases h

theorem drawText_failsCleanly : FailsCleanly (drawText : SyscallHandler δ) := by
  intro c env env' e h
  rw [drawText] at h
  split at h
  · cases h
    exact ⟨rfl, .inl rfl⟩
  · rename_i text _
    rcases hd : Services.drawText c.arg0 (coordinate c.arg1) (coordinate c.arg2) text
      c.arg4.toUInt32 env.services with ⟨done, d⟩
    rw [hd] at h
    obtain ⟨failed, rfl⟩ := Prod.mk.inj h
    rw [drawn_eq_error failed] at hd
    exact ⟨rfl, .inr (.text hd)⟩

theorem fillRect_failsCleanly : FailsCleanly (fillRect : SyscallHandler δ) := by
  intro c env env' e h
  rw [fillRect] at h
  dsimp only at h
  rcases hd : Services.fillRect c.arg0 ⟨upperHalf c.arg1, lowerHalf c.arg1, upperHalf c.arg2,
    lowerHalf c.arg2⟩ c.arg3.toUInt32 env.services with ⟨done, d⟩
  rw [hd] at h
  dsimp only at h
  obtain ⟨failed, rfl⟩ := Prod.mk.inj h
  rw [drawn_eq_error failed] at hd
  exact ⟨rfl, .inr (.rect hd)⟩

theorem eventPoll_failsCleanly : FailsCleanly (eventPoll : SyscallHandler δ) := by
  intro c env env' e h
  rw [eventPoll] at h
  split at h
  · cases h
  · split at h
    · cases h
      exact ⟨rfl, .inl rfl⟩
    · split at h <;> cases h

theorem shellExec_failsCleanly : FailsCleanly (shellExec : SyscallHandler δ) := by
  intro c env env' e h
  rw [shellExec] at h
  split at h
  · cases h
    exact ⟨rfl, .inl rfl⟩
  · cases h

theorem all_failCleanly : ∀ entry ∈ all (δ := δ), FailsCleanly entry.2 := by
  simp only [all, List.forall_mem_cons]
  exact ⟨exit_failsCleanly, read_failsCleanly, write_failsCleanly, windowOpen_failsCleanly,
    drawText_failsCleanly, fillRect_failsCleanly, eventPoll_failsCleanly, shellExec_failsCleanly,
    getChar_failsCleanly, List.forall_mem_nil _⟩

end Handlers

namespace SyscallTable

open Handlers

/-- A call of the table fails because its handler does, or because it has none. -/
theorem run_error {t : SyscallTable δ} (standard : (registerEach all .empty).2 = t)
    {c : SyscallContext} {env env' : Env δ} {e : SyscallError}
    (failed : t.run c env = (.error e, env')) :
    env'.memory = env.memory ∧ ∃ d notices,
      (d = env.services ∨ Refused env.services d) ∧ env'.services = noted notices d := by
  rw [run] at failed
  split at failed
  · rename_i handler hh
    rw [← standard] at hh
    obtain ⟨number, mem, -⟩ | before := handler?_registerEach hh
    · obtain ⟨memory, services⟩ := all_failCleanly _ mem failed
      exact ⟨memory, env'.services, [], services, rfl⟩
    · simp [handler?, empty] at before
  · cases failed
    exact ⟨rfl, env.services, [_], .inl rfl, rfl⟩

/-- A call that fails, from whatever ring, changes no byte of memory and does nothing with the
services: it leaves notices in the journal, and before that it may have asked for one draw, which
the window service has refused. -/
theorem failed_call_does_nothing (booted : δ) (f : Trapframe) (m : ByteMemory) (services : δ)
    {e : SyscallError}
    (failed : ((registerAll .empty booted).2.1.run (.ofFrame f) ⟨m, services⟩).1 = .error e) :
    ∃ d notices, (d = services ∨ Refused services d) ∧
      (registerAll .empty booted).2.1.handle f ⟨m, services⟩ =
        ({ f with rax := e.word }, ⟨m, noted notices d⟩) := by
  rcases hr : (registerAll .empty booted).2.1.run (.ofFrame f) ⟨m, services⟩ with ⟨result, env⟩
  rw [hr] at failed
  dsimp only at failed
  subst failed
  obtain ⟨memory, d, notices, unasked, services'⟩ := run_error rfl hr
  let last : Notice := .trace ("syscall: " ++ (SyscallContext.ofFrame f).text (.error e))
  refine ⟨d, notices ++ [last], unasked, ?_⟩
  rw [handle_of_run hr, noted_append, ← services', memory]
  rfl

/-- A program that draws text into a window that was never opened. -/
def drawFrame : Trapframe := { rax := 11, rbx := 42, rsi := 0x1000, cs := 0x1b }

/-- The text at the address that it names. -/
def greeting : ByteMemory := (ByteMemory.filled 0).write 0x1000 #[104, 105]

theorem failed_call_does_nothing_draw :
    ((registerAll .empty typed).2.1.run (.ofFrame drawFrame) ⟨greeting, typed⟩).1 =
        .error .invalidArgument ∧
      ∃ d notices, (d = typed ∨ Refused typed d) ∧
        (registerAll .empty typed).2.1.handle drawFrame ⟨greeting, typed⟩ =
          ({ drawFrame with rax := SyscallError.invalidArgument.word },
            ⟨greeting, noted notices d⟩) := by
  have failed : ((registerAll .empty typed).2.1.run (.ofFrame drawFrame) ⟨greeting, typed⟩).1 =
      .error .invalidArgument := by rfl
  exact ⟨failed, failed_call_does_nothing typed drawFrame greeting typed failed⟩

end SyscallTable
end KernelCore
