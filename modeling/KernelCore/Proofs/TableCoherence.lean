import KernelCore.Proofs.TableEffects

/-!
# Coherent process tables

What holds of the process table in every state that a run reaches, whatever the machine does. Who
is there: the kernel's own process in its slot, every other process with a stack in the kernel, all
with different numbers. What they do: the current one is running and no other, and only a process
that is ready or running has a place to go on from.
-/
namespace KernelCore

namespace ProcessTable

/-- Who is in the table. -/
structure Populated (t : ProcessTable) : Prop where
  kernel : ∃ q, t.slots kernelSlot = some q ∧ q.pid = 1 ∧ q.userland = false ∧
    q.kernelStack = none ∧ q.state ≠ .exited
  stack_owned : ∀ {s q}, t.slots s = some q → s ≠ kernelSlot → q.kernelStack.isSome
  pid_lt : ∀ {s q}, t.slots s = some q → q.pid < t.nextPid
  pid_inj : ∀ {s s' q q'}, t.slots s = some q → t.slots s' = some q' → q.pid = q'.pid → s = s'

/-- Who is running, and who could go on. -/
structure Controlled (t : ProcessTable) : Prop where
  current_running : ∃ q, t.slots t.current = some q ∧ q.state = .running
  running_current : ∀ {s q}, t.slots s = some q → q.state = .running → s = t.current
  saved_state : ∀ {s q}, t.slots s = some q → q.saved.isSome → q.state = .ready ∨ q.state = .running

structure Coherent (t : ProcessTable) : Prop extends Populated t, Controlled t

theorem Populated.userland_of_kernelSlot {t : ProcessTable} (h : Populated t)
    {slot : Fin maxProcesses} {q : Process} (hq : t.slots slot = some q) (hs : slot = kernelSlot) :
    q.userland = false := by
  obtain ⟨k, hk, -, huser, -⟩ := h.kernel
  rw [hs, hk] at hq
  exact Option.some.inj hq ▸ huser

theorem Populated.kernelStack_of_kernelSlot {t : ProcessTable} (h : Populated t)
    {slot : Fin maxProcesses} {q : Process} (hq : t.slots slot = some q) (hs : slot = kernelSlot) :
    q.kernelStack = none := by
  obtain ⟨k, hk, -, -, none, -⟩ := h.kernel
  rw [hs, hk] at hq
  exact Option.some.inj hq ▸ none

/-- Traps of a process of ring 3 have a stack to arrive on. -/
theorem Populated.trapStack_of_userland {t : ProcessTable} (h : Populated t)
    {slot : Fin maxProcesses} {q : Process} (hq : t.slots slot = some q)
    (huser : q.userland = true) :
    ∃ stack, q.kernelStack = some stack ∧ q.trapStackTop = some stack.top := by
  have hslot : slot ≠ kernelSlot := by
    intro hs
    rw [h.userland_of_kernelSlot hq hs] at huser
    cases huser
  obtain ⟨stack, hstack⟩ := Option.isSome_iff_exists.mp (h.stack_owned hq hslot)
  refine ⟨stack, hstack, ?_⟩
  rw [Process.trapStackTop, hstack]
  rfl

theorem Controlled.slot_ne_current {t : ProcessTable} (h : Controlled t) {slot : Fin maxProcesses}
    {q : Process} (hq : t.slots slot = some q) (hrun : q.state ≠ .running) : slot ≠ t.current := by
  rintro rfl
  obtain ⟨r, hr, hr'⟩ := h.current_running
  obtain rfl := Option.some.inj (hq.symm.trans hr)
  exact hrun hr'

theorem Controlled.get_currentHandle {t : ProcessTable} (h : Controlled t) :
    ∃ q, t.get t.currentHandle = .ok q ∧ q.state = .running := by
  obtain ⟨q, hq, hrun⟩ := h.current_running
  refine ⟨q, get_eq_ok.mpr ⟨hq, ?_⟩, hrun⟩
  rw [currentHandle, pidOf, hq]
  rfl

theorem Controlled.currentHandle_ne {t : ProcessTable} (controlled : Controlled t)
    {h : ProcessHandle} (idle : ∀ q, t.get h = .ok q → q.state ≠ .running) :
    t.currentHandle ≠ h := by
  rintro rfl
  obtain ⟨q, live, hrun⟩ := controlled.get_currentHandle
  exact idle q live hrun

theorem Populated.handle_eq_of_pid {t : ProcessTable} (populated : Populated t)
    {h h' : ProcessHandle} {q q' : Process} (live : t.get h = .ok q) (live' : t.get h' = .ok q')
    (hpid : h.pid = h'.pid) : h = h' := by
  obtain ⟨hq, hqpid⟩ := get_eq_ok.mp live
  obtain ⟨hq', hqpid'⟩ := get_eq_ok.mp live'
  have hs := populated.pid_inj hq hq' (hqpid.trans (hpid.trans hqpid'.symm))
  exact handle_eq_of_slot live live' hs

theorem kernel_slots_new (space : AddressSpace) :
    (new space).slots kernelSlot = some (kernelProcess space) :=
  (slots_new space kernelSlot).trans (if_pos rfl)

theorem eq_kernel_of_slots_new {space : AddressSpace} {s : Fin maxProcesses} {q : Process}
    (h : (new space).slots s = some q) : s = kernelSlot ∧ q = kernelProcess space := by
  rw [slots_new] at h
  split at h
  · rename_i hs
    exact ⟨hs, (Option.some.inj h).symm⟩
  · cases h

theorem coherent_new (space : AddressSpace) : Coherent (new space) where
  kernel := ⟨_, kernel_slots_new space, rfl, rfl, rfl, nofun⟩
  stack_owned h hs := absurd (eq_kernel_of_slots_new h).1 hs
  pid_lt h := (eq_kernel_of_slots_new h).2 ▸ Nat.lt_succ_self 1
  pid_inj h h' _ := (eq_kernel_of_slots_new h).1.trans (eq_kernel_of_slots_new h').1.symm
  current_running := ⟨_, kernel_slots_new space, rfl⟩
  running_current h _ := (eq_kernel_of_slots_new h).1
  saved_state h hs := by
    rw [(eq_kernel_of_slots_new h).2] at hs
    cases hs

section Settle

variable {t : ProcessTable} {slot : Fin maxProcesses} {q : Process} {state : ProcessState}
  {saved : Option FramePlace}

theorem slots_settle_cases {s : Fin maxProcesses} {r : Process}
    (h : (t.setSlot slot (some (q.settle state saved))).slots s = some r) :
    (s = slot ∧ r = q.settle state saved) ∨ (s ≠ slot ∧ t.slots s = some r) := by
  rw [slots_setSlot] at h
  split at h
  · rename_i hs
    exact .inl ⟨hs, (Option.some.inj h).symm⟩
  · rename_i hs
    exact .inr ⟨hs, h⟩

/-- Processes that do not run may change their state as they like, short of running. -/
theorem Controlled.settle (h : Controlled t) (hq : t.slots slot = some q)
    (hrun : q.state ≠ .running) (hstate : state ≠ .running)
    (hsaved : saved.isSome → state = .ready) :
    Controlled (t.setSlot slot (some (q.settle state saved))) := by
  have hslot : t.current ≠ slot := (h.slot_ne_current hq hrun).symm
  refine ⟨?_, ?_, ?_⟩
  · obtain ⟨r, hr, hr'⟩ := h.current_running
    exact ⟨r, (t.slots_setSlot_other _ hslot).trans hr, hr'⟩
  · intro s r hr hr'
    rcases slots_settle_cases hr with ⟨-, rfl⟩ | ⟨-, hr⟩
    · exact absurd hr' hstate
    · exact h.running_current hr hr'
  · intro s r hr hr'
    rcases slots_settle_cases hr with ⟨-, rfl⟩ | ⟨-, hr⟩
    · exact .inl (hsaved hr')
    · exact h.saved_state hr hr'

end Settle

theorem Controlled.added {t : ProcessTable} {slot : Fin maxProcesses} {q : Process}
    (h : Controlled t) (free : t.slots slot = none) (hstate : q.state = .ready)
    (hsaved : q.saved = none) : Controlled (t.added slot q) := by
  refine ⟨?_, ?_, ?_⟩
  · obtain ⟨r, hr, hr'⟩ := h.current_running
    refine ⟨r, ?_, hr'⟩
    rw [slots_added, if_neg]
    · exact hr
    · rintro hs
      change t.current = slot at hs
      rw [hs, free] at hr
      cases hr
  · intro s r hr hr'
    rcases slots_added_cases hr with ⟨-, rfl⟩ | ⟨-, hr⟩
    · rw [hstate] at hr'
      cases hr'
    · exact h.running_current hr hr'
  · intro s r hr hr'
    rcases slots_added_cases hr with ⟨-, rfl⟩ | ⟨-, hr⟩
    · rw [hsaved] at hr'
      cases hr'
    · exact h.saved_state hr hr'

theorem current_reap {π : Type} [Platform π] (t : ProcessTable) (p : π) :
    (t.reap p).2.1.current = t.current := by
  unfold reap
  dsimp only

theorem nextPid_reap {π : Type} [Platform π] (t : ProcessTable) (p : π) :
    (t.reap p).2.1.nextPid = t.nextPid := by
  unfold reap
  dsimp only

theorem frames_reap {π : Type} [Platform π] (t : ProcessTable) (p : π) :
    (t.reap p).2.1.frames = t.frames := by
  unfold reap
  dsimp only

/-- Only processes that have exited, and never the current one, leave their slots. -/
theorem slots_reap_cases {π : Type} [Platform π] {t : ProcessTable} {p : π} {s : Fin maxProcesses}
    {q : Process} (h : t.slots s = some q) :
    (t.reap p).2.1.slots s = if s ≠ t.current ∧ q.state = .exited then none else some q := by
  rw [slots_reap, h]
  simp [reapable, stateOf, h]

theorem slots_of_reap {π : Type} [Platform π] {t : ProcessTable} {p : π} {s : Fin maxProcesses}
    {q : Process} (h : (t.reap p).2.1.slots s = some q) : t.slots s = some q := by
  rw [slots_reap] at h
  split at h
  · cases h
  · exact h

theorem Controlled.reap {π : Type} [Platform π] {t : ProcessTable} (h : Controlled t) (p : π) :
    Controlled (t.reap p).2.1 := by
  refine ⟨?_, ?_, ?_⟩
  · obtain ⟨r, hr, hr'⟩ := h.current_running
    refine ⟨r, ?_, hr'⟩
    rw [current_reap, slots_reap_cases hr, if_neg]
    exact fun hs => hs.1 rfl
  · intro s r hr hr'
    rw [current_reap]
    exact h.running_current (slots_of_reap hr) hr'
  · intro s r hr hr'
    exact h.saved_state (slots_of_reap hr) hr'

theorem Controlled.interrupted {t : ProcessTable} (h : Controlled t) (place : FramePlace)
    (registers : Trapframe) : Controlled (t.interrupted place registers) := by
  obtain ⟨q, hq, hq'⟩ := h.current_running
  have look {s : Fin maxProcesses} {r : Process}
      (hr : (t.interrupted place registers).slots s = some r) :
      (s = t.current ∧ r.state = .running) ∨ (s ≠ t.current ∧ t.slots s = some r) := by
    rw [slots_interrupted] at hr
    split at hr
    · rename_i hs
      rw [hs, hq] at hr
      cases hr
      exact .inl ⟨hs, hq'⟩
    · rename_i hs
      exact .inr ⟨hs, hr⟩
  refine ⟨⟨q.settle q.state (some place), ?_, hq'⟩, ?_, ?_⟩
  · change (t.interrupted place registers).slots t.current = _
    rw [slots_interrupted, if_pos rfl, hq]
    rfl
  · intro s r hr hr'
    rcases look hr with ⟨hs, -⟩ | ⟨-, hr⟩
    · exact hs
    · exact h.running_current hr hr'
  · intro s r hr hr'
    rcases look hr with ⟨-, hs⟩ | ⟨-, hr⟩
    · exact .inr hs
    · exact h.saved_state hr hr'

theorem Controlled.handOver {t : ProcessTable} (h : Controlled t) {next : Fin maxProcesses}
    {new : Process} (other : next ≠ t.current) (enters : t.slots next = some new) :
    Controlled (t.handOver next) := by
  have hslot := t.slots_handOver other
  refine ⟨⟨new.settle .running new.saved, ?_, rfl⟩, ?_, ?_⟩
  · change (t.handOver next).slots next = _
    rw [hslot, if_pos rfl, enters]
    rfl
  · intro s r hr hr'
    change s = next
    rw [hslot] at hr
    split at hr
    · assumption
    · split at hr
      · obtain ⟨q, -, rfl⟩ := Option.map_eq_some_iff.mp hr
        rw [preempted_eq, Process.settle_state] at hr'
        split at hr'
        · cases hr'
        · contradiction
      · rename_i hc
        exact absurd (h.running_current hr hr') hc
  · intro s r hr hr'
    rw [hslot] at hr
    split at hr
    · obtain ⟨q, -, rfl⟩ := Option.map_eq_some_iff.mp hr
      exact .inr rfl
    · split at hr
      · obtain ⟨q, hq, rfl⟩ := Option.map_eq_some_iff.mp hr
        rw [preempted_eq] at hr' ⊢
        have hstate := h.saved_state hq hr'
        rw [Process.settle_state]
        split
        · exact .inl rfl
        · exact hstate
      · exact h.saved_state hr hr'

/-- Every process of `u` was in its slot of `t` already, apart from its state and the place it goes
on from. -/
def Descends (t u : ProcessTable) : Prop :=
  ∀ ⦃s r⦄, u.slots s = some r → ∃ q, t.slots s = some q ∧ r = q.settle r.state r.saved

theorem Descends.refl (t : ProcessTable) : Descends t t := fun _ r hr => ⟨r, hr, rfl⟩

theorem Descends.trans {t u v : ProcessTable} (h : Descends t u) (h' : Descends u v) :
    Descends t v := by
  intro s r hr
  obtain ⟨q, hq, hrq⟩ := h' hr
  obtain ⟨q', hq', hqq⟩ := h hq
  refine ⟨q', hq', ?_⟩
  rw [hrq, hqq]
  rfl

theorem descends_settle {t : ProcessTable} {slot : Fin maxProcesses} {q : Process}
    (hq : t.slots slot = some q) (state : ProcessState) (saved : Option FramePlace) :
    Descends t (t.setSlot slot (some (q.settle state saved))) := by
  intro s r hr
  rcases slots_settle_cases hr with ⟨rfl, rfl⟩ | ⟨-, hr⟩
  · exact ⟨q, hq, rfl⟩
  · exact ⟨r, hr, rfl⟩

theorem descends_readied {t : ProcessTable} {slot : Fin maxProcesses} {q : Process}
    (hq : t.slots slot = some q) (top : Nat) : Descends t (t.readied slot q top) :=
  descends_settle (t := t.setFrame (initialPlace q) (initialFrame q top)) hq _ _

theorem descends_reap {π : Type} [Platform π] (t : ProcessTable) (p : π) :
    Descends t (t.reap p).2.1 := fun _ r hr => ⟨r, slots_of_reap hr, rfl⟩

theorem descends_interrupted (t : ProcessTable) (place : FramePlace) (registers : Trapframe) :
    Descends t (t.interrupted place registers) := by
  intro s r hr
  rw [slots_interrupted] at hr
  split at hr
  · obtain ⟨q, hq, rfl⟩ := Option.map_eq_some_iff.mp hr
    exact ⟨q, hq, rfl⟩
  · exact ⟨r, hr, rfl⟩

theorem descends_handOver {t : ProcessTable} {next : Fin maxProcesses} (other : next ≠ t.current) :
    Descends t (t.handOver next) := by
  intro s r hr
  rw [slots_handOver t other] at hr
  split at hr
  · obtain ⟨q, hq, rfl⟩ := Option.map_eq_some_iff.mp hr
    exact ⟨q, hq, rfl⟩
  · split at hr
    · obtain ⟨q, hq, rfl⟩ := Option.map_eq_some_iff.mp hr
      refine ⟨q, hq, ?_⟩
      rw [preempted_eq]
      rfl
    · exact ⟨r, hr, rfl⟩

/-- It is enough that nobody comes in and that the kernel's own process stays. -/
theorem Populated.of_descends {t u : ProcessTable} (h : Populated t) (hd : Descends t u)
    (hn : u.nextPid = t.nextPid) (stays : ∃ r, u.slots kernelSlot = some r ∧ r.state ≠ .exited) :
    Populated u := by
  refine ⟨?_, ?_, ?_, ?_⟩
  · obtain ⟨k, hk, hpid, huser, hstack, -⟩ := h.kernel
    obtain ⟨r, hr, hstate⟩ := stays
    obtain ⟨q, hq, hrq⟩ := hd hr
    obtain rfl := Option.some.inj (hk.symm.trans hq)
    refine ⟨r, hr, ?_, ?_, ?_, hstate⟩
    · rw [hrq]
      exact hpid
    · rw [hrq]
      exact huser
    · rw [hrq]
      exact hstack
  · intro s r hr hs
    obtain ⟨q, hq, hrq⟩ := hd hr
    have hown := h.stack_owned hq hs
    rw [hrq]
    exact hown
  · intro s r hr
    obtain ⟨q, hq, hrq⟩ := hd hr
    have hlt := h.pid_lt hq
    rw [hn, hrq]
    exact hlt
  · intro s s' r r' hr hr' hpid
    obtain ⟨q, hq, hrq⟩ := hd hr
    obtain ⟨q', hq', hrq'⟩ := hd hr'
    rw [hrq, hrq'] at hpid
    exact h.pid_inj hq hq' hpid

/-- Only the end of the kernel's own process could hurt. -/
theorem Populated.settle {t : ProcessTable} {slot : Fin maxProcesses} {q : Process}
    {state : ProcessState} {saved : Option FramePlace} (h : Populated t)
    (hq : t.slots slot = some q) (hstate : slot = kernelSlot → state ≠ .exited) :
    Populated (t.setSlot slot (some (q.settle state saved))) := by
  refine h.of_descends (descends_settle hq state saved) rfl ?_
  by_cases hs : kernelSlot = slot
  · refine ⟨q.settle state saved, ?_, hstate hs.symm⟩
    rw [slots_setSlot, if_pos hs]
  · obtain ⟨k, hk, -, -, -, hk'⟩ := h.kernel
    refine ⟨k, ?_, hk'⟩
    rw [slots_setSlot, if_neg hs]
    exact hk

theorem Populated.reap {π : Type} [Platform π] {t : ProcessTable} (h : Populated t) (p : π) :
    Populated (t.reap p).2.1 := by
  refine h.of_descends (descends_reap t p) (nextPid_reap t p) ?_
  obtain ⟨k, hk, -, -, -, hk'⟩ := h.kernel
  refine ⟨k, ?_, hk'⟩
  rw [slots_reap_cases hk, if_neg]
  exact fun hs => hk' hs.2

theorem Populated.interrupted {t : ProcessTable} (h : Populated t) (place : FramePlace)
    (registers : Trapframe) : Populated (t.interrupted place registers) := by
  refine h.of_descends (descends_interrupted t place registers) rfl ?_
  obtain ⟨k, hk, -, -, -, hk'⟩ := h.kernel
  rw [slots_interrupted, hk]
  split
  · exact ⟨_, rfl, hk'⟩
  · exact ⟨k, rfl, hk'⟩

theorem Populated.handOver {t : ProcessTable} (h : Populated t) {next : Fin maxProcesses}
    (other : next ≠ t.current) : Populated (t.handOver next) := by
  refine h.of_descends (descends_handOver other) rfl ?_
  obtain ⟨k, hk, -, -, -, hk'⟩ := h.kernel
  rw [slots_handOver t other, hk]
  split
  · exact ⟨_, rfl, nofun⟩
  · split
    · refine ⟨preempted k, rfl, ?_⟩
      rw [preempted_eq, Process.settle_state]
      split
      · exact nofun
      · exact hk'
    · exact ⟨k, rfl, hk'⟩

/-- The number of a process that comes in was never given out before. -/
theorem Populated.added {t : ProcessTable} {slot : Fin maxProcesses} {q : Process}
    (h : Populated t) (free : t.slots slot = none) (hpid : q.pid = t.nextPid)
    (hown : q.kernelStack.isSome) : Populated (t.added slot q) := by
  refine ⟨?_, ?_, ?_, ?_⟩
  · obtain ⟨k, hk, hk'⟩ := h.kernel
    refine ⟨k, ?_, hk'⟩
    rw [slots_added, if_neg]
    · exact hk
    · intro hs
      rw [hs, free] at hk
      cases hk
  · intro s r hr hs
    rcases slots_added_cases hr with ⟨-, rfl⟩ | ⟨-, hr⟩
    · exact hown
    · exact h.stack_owned hr hs
  · intro s r hr
    change r.pid < t.nextPid + 1
    rcases slots_added_cases hr with ⟨-, rfl⟩ | ⟨-, old⟩
    · omega
    · have hlt := h.pid_lt old
      omega
  · intro s s' r r' hr hr' he
    rcases slots_added_cases hr with ⟨hs, rfl⟩ | ⟨-, old⟩
    · rcases slots_added_cases hr' with ⟨hs', -⟩ | ⟨-, old⟩
      · exact hs.trans hs'.symm
      · have hlt := h.pid_lt old
        omega
    · rcases slots_added_cases hr' with ⟨-, rfl⟩ | ⟨-, old'⟩
      · have hlt := h.pid_lt old
        omega
      · exact h.pid_inj old old' he

theorem Coherent.settle {t : ProcessTable} {slot : Fin maxProcesses} {q : Process}
    {state : ProcessState} {saved : Option FramePlace} (h : Coherent t)
    (hq : t.slots slot = some q) (hrun : q.state ≠ .running) (hstate : state ≠ .running)
    (hsaved : saved.isSome → state = .ready) (hkernel : slot = kernelSlot → state ≠ .exited) :
    Coherent (t.setSlot slot (some (q.settle state saved))) :=
  ⟨h.toPopulated.settle hq hkernel, h.toControlled.settle hq hrun hstate hsaved⟩

theorem Coherent.readied {t : ProcessTable} {slot : Fin maxProcesses} {q : Process} {top : Nat}
    (h : Coherent t) (hq : t.slots slot = some q) (can : Preparable q top) :
    Coherent (t.readied slot q top) := by
  have hframe : Coherent (t.setFrame (initialPlace q) (initialFrame q top)) :=
    ⟨⟨h.kernel, h.stack_owned, h.pid_lt, h.pid_inj⟩,
      ⟨h.current_running, h.running_current, h.saved_state⟩⟩
  exact hframe.settle hq can.not_running nofun (fun _ => rfl) nofun

end ProcessTable

namespace TableState

open ProcessTable

variable {π : Type} [Platform π] {s u : TableState π} {op : Operation} {a : Answer}

/-- Every call keeps the table coherent. -/
theorem coherent_effect (h : Coherent s.table) (effect : Effect s op a u) : Coherent u.table := by
  cases effect with
  | createRefused => exact h
  | created free number issued =>
    have free := slots_freeSlot free
    exact ⟨h.toPopulated.added free rfl rfl, h.toControlled.added free rfl rfl⟩
  | prepareRefused => exact h
  | prepared live can => exact h.readied (get_eq_ok.mp live).1 can
  | loadRefused cause => exact h
  | loadFailed live state => exact h.settle (get_eq_ok.mp live).1 state nofun nofun nofun
  | loaded live can => exact h.readied (get_eq_ok.mp live).1 can
  | exitRefused => exact h
  | @exited handle q live away user =>
    have hq := (get_eq_ok.mp live).1
    have hrun : q.state ≠ .running := fun hr => away (h.running_current hq hr)
    exact h.settle hq hrun nofun nofun fun hs => absurd hs user
  | reaped => exact ⟨h.toPopulated.reap s.machine, h.toControlled.reap s.machine⟩
  | kept alone => exact ⟨h.toPopulated.interrupted _ _, h.toControlled.interrupted _ _⟩
  | @switched place registers next _ new _ found other leaves enters saved =>
    have henters : (s.table.interrupted place registers).slots next = some new := by
      rw [slots_interrupted, if_neg other]
      exact enters
    have hp := h.toPopulated.interrupted place registers
    have hc := h.toControlled.interrupted place registers
    exact ⟨hp.handOver other, hc.handOver other henters⟩

theorem effect_of_coherent (h : Coherent s.table) (step : Step s op a u) : Effect s op a u := by
  obtain ⟨q, hq, -⟩ := h.current_running
  exact effect_of_step ⟨q, hq⟩ step

theorem coherent_step (h : Coherent s.table) (step : Step s op a u) : Coherent u.table :=
  coherent_effect h (effect_of_coherent h step)

theorem Run.coherent {history : List (Event π)} (run : Run s history u) (h : Coherent s.table) :
    Coherent u.table :=
  run.invariant (fun v => Coherent v.table) h fun _ _ _ hv step => coherent_step hv step

/-- Whatever the machine does, the table stays coherent. -/
theorem Reachable.coherent {p : π} (h : Reachable p s) : Coherent s.table := by
  obtain ⟨history, run⟩ := h
  exact run.coherent (coherent_new (activeSpace p))

end TableState
end KernelCore
