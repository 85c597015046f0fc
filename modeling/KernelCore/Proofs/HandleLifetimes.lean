import KernelCore.Proofs.ProcessFates

/-!
# Lifetimes of handles

A handle is good for one process only. It names the process that it was given out for, with all that
was fixed when that process came in, until the process is reaped. From then on every call with it is
refused, whoever comes into the slot next: numbers are given out in increasing order and never twice.
-/
namespace KernelCore

/-- The handle that a call gives out. -/
def Answer.issued : Answer → Option ProcessHandle
  | .created (.ok h) => some h
  | _ => none

namespace TableState

open ProcessTable

variable {π : Type} [Platform π] {s t u : TableState π} {op : Operation} {a : Answer}
  {h : ProcessHandle} {history more : List (Event π)}

/-- The numbers that the calls give out, the first one first. -/
def issuedPids (history : List (Event π)) : List Nat :=
  history.filterMap fun e => e.answer.issued.map ProcessHandle.pid

/-- The call frees the slot. -/
def Event.Frees (e : Event π) (slot : Fin maxProcesses) : Prop :=
  e.operation = .reap ∧ e.before.table.reapable slot = true

/-- Every call with the handle is refused, and neither the table nor the machine changes. -/
structure Stale (s : TableState π) (h : ProcessHandle) : Prop where
  get : s.table.get h = .error .staleHandle
  prepare : s.perform (.prepare h) = (.prepared (.error .staleHandle), s)
  load (image : ExecutableImage) :
    s.perform (.load h image) = (.loaded (.error .staleHandle), s)
  /-- If the slot is the current one by now, this comes to light first. -/
  exit : s.perform (.exit h) = (.exited (.error
    (if h.slot = s.table.current then .invalidState .running else .staleHandle)), s)

/-- Nobody comes into the slot of the kernel's own process, so the handle is none of its. -/
theorem Stale.of_gone (gone : Gone s.table h) (user : h.slot ≠ kernelSlot) : Stale s h := by
  have get : s.table.get h = .error .staleHandle := by
    cases hg : s.table.get h with
    | ok q => exact absurd hg (gone.not_live q)
    | error e => rw [get_error hg]
  refine ⟨get, ?_, ?_, ?_⟩
  · simp only [perform, prepareForRun, get]
  · intro image
    simp only [perform, loadAndRun, get]
  · simp only [perform, ProcessTable.exit, get, user, or_false]
    split <;> rfl

/-- A process stays in its slot, apart from its state and the place it goes on from, unless the call
frees the slot. -/
theorem Effect.persists (effect : Effect s op a u) {slot : Fin maxProcesses} {q : Process}
    (hq : s.table.slots slot = some q) :
    (op = .reap ∧ s.table.reapable slot = true) ∨
      ∃ state saved, u.table.slots slot = some (q.settle state saved) := by
  have still : some q = some (q.settle q.state q.saved) := rfl
  have settled {w : ProcessTable} {slot' : Fin maxProcesses} {r : Process}
      (hw : w.slots = s.table.slots) (hr : s.table.slots slot' = some r) (state : ProcessState)
      (saved : Option FramePlace) : ∃ state' saved',
        (w.setSlot slot' (some (r.settle state saved))).slots slot =
          some (q.settle state' saved') := by
    rw [slots_setSlot, hw]
    split
    · rename_i hs
      rw [hs, hr] at hq
      obtain rfl := Option.some.inj hq
      exact ⟨state, saved, rfl⟩
    · exact ⟨q.state, q.saved, hq.trans still⟩
  cases effect with
  | createRefused => exact .inr ⟨_, _, hq.trans still⟩
  | created free number issued =>
    refine .inr ⟨q.state, q.saved, ?_⟩
    rw [slots_added, if_neg]
    · exact hq.trans still
    · intro hs
      rw [hs, slots_freeSlot free] at hq
      cases hq
  | prepareRefused => exact .inr ⟨_, _, hq.trans still⟩
  | prepared live can => exact .inr (settled rfl (get_eq_ok.mp live).1 _ _)
  | loadRefused cause => exact .inr ⟨_, _, hq.trans still⟩
  | loadFailed live state => exact .inr (settled rfl (get_eq_ok.mp live).1 _ _)
  | loaded live can => exact .inr (settled rfl (get_eq_ok.mp live).1 _ _)
  | exitRefused => exact .inr ⟨_, _, hq.trans still⟩
  | exited live away user => exact .inr (settled rfl (get_eq_ok.mp live).1 _ _)
  | reaped =>
    by_cases hreap : s.table.reapable slot = true
    · exact .inl ⟨rfl, hreap⟩
    · refine .inr ⟨q.state, q.saved, ?_⟩
      rw [slots_reap, if_neg hreap]
      exact hq.trans still
  | kept alone =>
    rw [slots_interrupted, hq]
    split
    · exact .inr ⟨_, _, rfl⟩
    · exact .inr ⟨_, _, still⟩
  | switched found other leaves enters saved =>
    rw [slots_switched _ _ _ other, hq]
    split
    · exact .inr ⟨_, _, rfl⟩
    · split
      · exact .inr ⟨_, _, rfl⟩
      · exact .inr ⟨_, _, still⟩

/-- Numbers are given out by adding a process, and by nothing else. -/
theorem Effect.issued_cases (effect : Effect s op a u) :
    (a.issued = none ∧ u.table.nextPid = s.table.nextPid) ∨
      ∃ h, a.issued = some h ∧ h.pid = s.table.nextPid ∧ s.table.nextPid < pidLimit ∧
        u.table.nextPid = s.table.nextPid + 1 := by
  cases effect with
  | created free number issued => exact .inr ⟨_, rfl, rfl, number, rfl⟩
  | reaped => exact .inl ⟨rfl, nextPid_reap s.table s.machine⟩
  | _ => exact .inl ⟨rfl, rfl⟩

/-- The numbers given out so far are in order, and the next one is greater than all of them. -/
structure Numbered (history : List (Event π)) (t : ProcessTable) : Prop where
  sorted : (issuedPids history).Pairwise (· < ·)
  pid_bounds : ∀ pid ∈ issuedPids history, 1 < pid ∧ pid < t.nextPid
  next_bounds : 1 < t.nextPid ∧ t.nextPid ≤ pidLimit

theorem numbered_step (numbered : Numbered history t.table) (effect : Effect t op a u) :
    Numbered (history ++ [⟨t, op, a⟩]) u.table := by
  obtain ⟨sorted, pids, next⟩ := numbered
  rcases effect.issued_cases with ⟨none, hn⟩ | ⟨h, some, hpid, hlt, hn⟩
  · have same : issuedPids (history ++ [⟨t, op, a⟩]) = issuedPids history := by
      simp [issuedPids, none]
    exact ⟨same ▸ sorted, same ▸ hn ▸ pids, hn ▸ next⟩
  · have more : issuedPids (history ++ [⟨t, op, a⟩]) = issuedPids history ++ [t.table.nextPid] := by
      simp [issuedPids, some, hpid]
    constructor
    · rw [more, List.pairwise_append]
      refine ⟨sorted, List.pairwise_singleton _ _, ?_⟩
      intro pid hp last hl
      rw [List.mem_singleton.mp hl]
      exact (pids pid hp).2
    · intro pid hp
      rw [more] at hp
      rcases List.mem_append.mp hp with hp | hp
      · have := pids pid hp
        omega
      · rw [List.mem_singleton.mp hp]
        omega
    · omega

theorem numbered_run {p : π} (run : Run (start p) history s) : Numbered history s.table := by
  have first : Coherent (start p).table := coherent_new (activeSpace p)
  induction run with
  | refl => exact ⟨.nil, nofun, Nat.lt_succ_self 1, (by decide : 2 ≤ pidLimit)⟩
  | @step history t op a u run last ih =>
    exact numbered_step ih (effect_of_coherent (run.coherent first) last)

/-- A process is in the table as it came in until its slot is freed, and then it is gone for good. -/
theorem lives_run (run : Run t more u) (coherent : Coherent t.table) {q : Process}
    (live : t.table.get h = .ok q) :
    ((∃ state saved, u.table.get h = .ok (q.settle state saved)) ∧
        ∀ e ∈ more, ¬ e.Frees h.slot) ∨
      (Gone u.table h ∧ ∃ e ∈ more, e.Frees h.slot) := by
  induction run with
  | refl => exact .inl ⟨⟨q.state, q.saved, live⟩, List.forall_mem_nil _⟩
  | @step more v op a w run last ih =>
    have hv := run.coherent coherent
    have effect := effect_of_coherent hv last
    rcases ih with ⟨⟨state, saved, here⟩, kept⟩ | ⟨gone, e, he, frees⟩
    · obtain ⟨hq, hpid⟩ := get_eq_ok.mp here
      rcases effect.persists hq with ⟨rfl, freed⟩ | ⟨state', saved', hw⟩
      · have hexited : state = .exited := by
          simpa [reapable, stateOf, hq] using (Bool.and_eq_true_iff.mp freed).2
        exact .inr ⟨(gone_reap hv here hexited effect).2, ⟨v, .reap, a⟩, by simp, rfl, freed⟩
      · refine .inl ⟨⟨state', saved', get_eq_ok.mpr ⟨hw, hpid⟩⟩, ?_⟩
        intro e he
        rcases List.mem_append.mp he with he | he
        · exact kept e he
        · rw [List.mem_singleton.mp he]
          rintro ⟨rfl, freed⟩
          have hnone := slots_reap v.table v.machine h.slot
          rw [if_pos freed] at hnone
          cases effect
          cases hnone.symm.trans hw
    · exact .inr ⟨gone_step gone effect, e, by simp [he], frees⟩

/-- No number is left to give out. -/
theorem create_exhausted (s : TableState π) (h : pidLimit ≤ s.table.nextPid) (name : String)
    (entry : Nat) (userland : Bool) :
    s.perform (.create name entry userland) = (.created (.error .tableFull), s) := by
  simp only [perform, ProcessTable.create]
  split
  · rfl
  · rw [if_pos h]

/-- What a call fixes about the process that it adds. -/
structure Founds (s : TableState π) (name : String) (entry : Nat) (userland : Bool)
    (h : ProcessHandle) (q : Process) : Prop where
  pid : q.pid = h.pid
  name : q.name = .ofString name
  entry : q.entry = entry
  userland : q.userland = userland
  /-- The space that the machine has created for it. -/
  space : (createSpace s.machine).1 = .ok q.space

theorem founds_create {name : String} {entry : Nat} {userland : Bool}
    (step : Step s (.create name entry userland) (.created (.ok h)) t) :
    s.table.slots h.slot = none ∧ ∃ q, t.table.get h = .ok q ∧ Founds s name entry userland h q := by
  obtain ⟨hp, -⟩ := step
  rcases hc : s.table.create name entry userland s.machine with ⟨result, u, m⟩
  simp only [perform, hc, Prod.mk.injEq, Answer.created.injEq] at hp
  obtain ⟨rfl, rfl⟩ := hp
  obtain ⟨slot, space, region, -, -, -, free, -, made, -, rfl, rfl, -⟩ := create_ok hc
  have live := s.table.slots_added slot slot (s.table.newcomer name entry userland space region
    (if userland then some (UserStack.top slot) else none))
  rw [if_pos rfl] at live
  exact ⟨slots_freeSlot free, _, get_eq_ok.mpr ⟨live, rfl⟩, rfl, rfl, rfl, rfl, made⟩

/-- Numbers are given out in increasing order, from two on and up to the largest one but no further,
and no two processes in the table have the same. The handle of a process names it, as it was added,
exactly until a call frees its slot, and is refused ever after. -/
theorem handles_never_alias {p : π} (run : Run (start p) history s) :
    (issuedPids history).Pairwise (· < ·) ∧
    (∀ pid ∈ issuedPids history, 1 < pid ∧ pid < pidLimit) ∧
    s.table.nextPid ≤ pidLimit ∧
    (s.table.nextPid = pidLimit → ∀ name entry userland,
      s.perform (.create name entry userland) = (.created (.error .tableFull), s)) ∧
    (∀ {slot slot' q q'}, s.table.slots slot = some q → s.table.slots slot' = some q' →
      q.pid = q'.pid → slot = slot') ∧
    (∀ {name entry userland h t}, Step s (.create name entry userland) (.created (.ok h)) t →
      ∀ {more u}, Run t more u →
      ((∃ q, u.table.get h = .ok q) ↔ ∀ e ∈ more, ¬ e.Frees h.slot) ∧
      (∀ q, u.table.get h = .ok q → Founds s name entry userland h q) ∧
      ((∃ e ∈ more, e.Frees h.slot) → Stale u h)) := by
  have coherent : Coherent s.table := Reachable.coherent ⟨history, run⟩
  obtain ⟨sorted, pids, next⟩ := numbered_run run
  refine ⟨sorted, fun pid hp => ?_, next.2, fun full => ?_, coherent.pid_inj, ?_⟩
  · have := pids pid hp
    omega
  · exact create_exhausted s (Nat.le_of_eq full.symm)
  · intro name entry userland h t step more u later
    obtain ⟨free, q, live, founds⟩ := founds_create step
    have user : h.slot ≠ kernelSlot := by
      intro hs
      obtain ⟨k, hk, -⟩ := coherent.kernel
      rw [hs, hk] at free
      cases free
    rcases lives_run later (coherent_step coherent step) live with
      ⟨⟨state, saved, here⟩, kept⟩ | ⟨gone, e, he, freed⟩
    · refine ⟨⟨fun _ => kept, fun _ => ⟨_, here⟩⟩, fun r hr => ?_, fun ⟨e, he, freed⟩ => ?_⟩
      · obtain rfl := Except.ok.inj (here.symm.trans hr)
        exact ⟨founds.pid, founds.name, founds.entry, founds.userland, founds.space⟩
      · exact absurd freed (kept e he)
    · refine ⟨⟨fun ⟨r, hr⟩ => ?_, fun kept => ?_⟩, fun r hr => ?_, fun _ => .of_gone gone user⟩
      · exact absurd hr (gone.not_live r)
      · exact absurd freed (kept e he)
      · exact absurd hr (gone.not_live r)

/-- The process that was added first is reaped, and another one comes into its slot. -/
def replaced : List Operation := [.exit .first, .reap, .create "next" 0x500000 false]

theorem handles_never_alias_replaced :
    ∃ t, Run flatStart [] flatStart ∧
      Step flatStart (.create "init" 0x400000 true) (.created (.ok .first)) t ∧
      Run t (t.record replaced) (t.after replaced) ∧
      (∃ q, (t.after replaced).table.slots ProcessHandle.first.slot = some q ∧ q.pid = 3) ∧
      Stale (t.after replaced) .first := by
  have step : Step flatStart (.create "init" 0x400000 true) (.created (.ok .first))
      (flatStart.perform (.create "init" 0x400000 true)).2 := ⟨rfl, nofun⟩
  have later := run_record (flatStart.perform (.create "init" 0x400000 true)).2 replaced (by decide)
  obtain ⟨-, -, -, -, -, lifetime⟩ := handles_never_alias (Run.refl (s := flatStart))
  obtain ⟨-, -, stale⟩ := lifetime step later
  refine ⟨_, .refl, step, later, ⟨_, rfl, rfl⟩, stale ⟨_, .tail _ (.head _), rfl, rfl⟩⟩

end TableState
end KernelCore
