import KernelCore.Proofs.TableCoherence

/-!
# What becomes of a process

One process under calls of any kind. It comes with a call that adds it and goes with a removal after
it has exited; in between it is changed by calls about it and by the ticks that stop it or let it
run, and by nothing else.
-/
namespace KernelCore

namespace ProcessTable

/-- The process that the handle names is in this state and has no place to go on from. -/
def Rests (t : ProcessTable) (h : ProcessHandle) (state : ProcessState) : Prop :=
  ∃ q, t.get h = .ok q ∧ q.state = state ∧ q.saved = none

theorem Rests.state_eq {t : ProcessTable} {h : ProcessHandle} {state state' : ProcessState}
    (rests : Rests t h state) (rests' : Rests t h state') : state = state' := by
  obtain ⟨q, live, rfl, -⟩ := rests
  obtain ⟨q', live', rfl, -⟩ := rests'
  obtain rfl := Except.ok.inj (live.symm.trans live')
  rfl

theorem Rests.currentHandle_ne {t : ProcessTable} {h : ProcessHandle} {state : ProcessState}
    (rests : Rests t h state) (controlled : Controlled t) (hstate : state ≠ .running) :
    t.currentHandle ≠ h := by
  obtain ⟨q, live, rfl, -⟩ := rests
  refine controlled.currentHandle_ne fun r live' => ?_
  obtain rfl := Except.ok.inj (live.symm.trans live')
  exact hstate

theorem rests_settle {t : ProcessTable} {h : ProcessHandle} {q : Process} (live : t.get h = .ok q)
    (state : ProcessState) : Rests (t.setSlot h.slot (some (q.settle state none))) h state := by
  refine ⟨q.settle state none, get_eq_ok.mpr ⟨?_, ?_⟩, rfl, rfl⟩
  · exact slots_setSlot_self _ _ _
  · exact (get_eq_ok.mp live).2

/-- The handle was given out once and names no process any more. -/
structure Gone (t : ProcessTable) (h : ProcessHandle) : Prop where
  not_live : ∀ q, t.get h ≠ .ok q
  pid_lt : h.pid < t.nextPid

theorem Gone.currentHandle_ne {t : ProcessTable} {h : ProcessHandle} (gone : Gone t h)
    (controlled : Controlled t) : t.currentHandle ≠ h :=
  controlled.currentHandle_ne fun q live => absurd live (gone.not_live q)

theorem Rests.not_gone {t : ProcessTable} {h : ProcessHandle} {state : ProcessState}
    (rests : Rests t h state) : ¬ Gone t h := by
  obtain ⟨q, live, -⟩ := rests
  exact fun gone => gone.not_live q live

end ProcessTable

namespace TableState

open ProcessTable

variable {π : Type} [Platform π] {s u : TableState π} {op : Operation} {a : Answer}
  {h : ProcessHandle}

/-- A process in the table after a call was in its slot before, or it is the one that the call has
added. -/
theorem Effect.descends_or_added (effect : Effect s op a u) :
    (Descends s.table u.table ∧ u.table.nextPid = s.table.nextPid) ∨
      ∃ slot q, s.table.slots slot = none ∧ Issued π q.space ∧ q.pid = s.table.nextPid ∧
        q.stackTop.isSome ∧ u.table = s.table.added slot q := by
  cases effect with
  | createRefused => exact .inl ⟨Descends.refl _, rfl⟩
  | @created _ _ userland _ _ _ _ free number issued =>
    exact .inr ⟨_, _, slots_freeSlot free, issued, rfl, by cases userland <;> rfl, rfl⟩
  | prepareRefused => exact .inl ⟨Descends.refl _, rfl⟩
  | prepared live can => exact .inl ⟨descends_readied (get_eq_ok.mp live).1 _, rfl⟩
  | loadRefused cause => exact .inl ⟨Descends.refl _, rfl⟩
  | loadFailed live state => exact .inl ⟨descends_settle (get_eq_ok.mp live).1 _ _, rfl⟩
  | loaded live can => exact .inl ⟨descends_readied (get_eq_ok.mp live).1 _, rfl⟩
  | exitRefused => exact .inl ⟨Descends.refl _, rfl⟩
  | exited live away user => exact .inl ⟨descends_settle (get_eq_ok.mp live).1 _ _, rfl⟩
  | reaped => exact .inl ⟨descends_reap s.table s.machine, nextPid_reap s.table s.machine⟩
  | kept alone => exact .inl ⟨descends_interrupted _ _ _, rfl⟩
  | @switched place registers next _ _ _ found other leaves enters saved =>
    have handed : Descends (s.table.interrupted place registers) _ := descends_handOver other
    exact .inl ⟨(descends_interrupted s.table place registers).trans handed, rfl⟩

/-- Only a tick stops the current process and starts another. -/
theorem Effect.current_stays (controlled : Controlled s.table) (effect : Effect s op a u)
    (hop : ∀ place registers, op ≠ .schedule place registers) :
    u.table.current = s.table.current ∧
      u.table.slots s.table.current = s.table.slots s.table.current := by
  obtain ⟨r, hr, -⟩ := controlled.current_running
  have away {slot : Fin maxProcesses} {q : Process} (hq : s.table.slots slot = some q)
      (hstate : q.state ≠ .running) : s.table.current ≠ slot :=
    (controlled.slot_ne_current hq hstate).symm
  cases effect with
  | createRefused => exact ⟨rfl, rfl⟩
  | created free number issued =>
    refine ⟨rfl, ?_⟩
    rw [slots_added, if_neg]
    intro hs
    rw [hs, slots_freeSlot free] at hr
    cases hr
  | prepareRefused => exact ⟨rfl, rfl⟩
  | prepared live can =>
    exact ⟨rfl, slots_setSlot_other _ _ (away (get_eq_ok.mp live).1 can.not_running)⟩
  | loadRefused cause => exact ⟨rfl, rfl⟩
  | loadFailed live state =>
    exact ⟨rfl, slots_setSlot_other _ _ (away (get_eq_ok.mp live).1 state)⟩
  | loaded live can =>
    exact ⟨rfl, slots_setSlot_other _ _ (away (get_eq_ok.mp live).1 can.not_running)⟩
  | exitRefused => exact ⟨rfl, rfl⟩
  | exited live elsewhere user => exact ⟨rfl, slots_setSlot_other _ _ elsewhere.symm⟩
  | reaped =>
    refine ⟨current_reap s.table s.machine, ?_⟩
    rw [slots_reap_cases hr, if_neg fun hs => hs.1 rfl, hr]
  | kept alone => exact absurd rfl (hop _ _)
  | switched found other leaves enters saved => exact absurd rfl (hop _ _)

/-- A process that becomes the current one goes on from the place that it had. -/
theorem Effect.current_cases (effect : Effect s op a u) : u.table.current = s.table.current ∨
    ∃ q place, s.table.slots u.table.current = some q ∧ q.saved = some place ∧
      a = .resumed place ∧ u.table.slots u.table.current = some (q.settle .running q.saved) := by
  cases effect with
  | reaped => exact .inl (current_reap s.table s.machine)
  | @switched place registers next _ new _ found other leaves enters saved =>
    refine .inr ⟨new, _, enters, saved, rfl, ?_⟩
    change ((s.table.interrupted place registers).handOver next).slots next = _
    rw [slots_switched _ _ _ other, if_pos rfl, enters]
    rfl
  | _ => exact .inl rfl

/-- A call about a process is refused, stops it, makes it ready or ends it. -/
theorem Effect.subject_cases {q : Process} (effect : Effect s op a u) (live : s.table.get h = .ok q)
    (hop : op.subject = some h) :
    (¬ FailedLoad h op a ∧ u.table = s.table) ∨
    (FailedLoad h op a ∧ q.state ≠ .running ∧
      u.table = s.table.setSlot h.slot (some (q.settle .stopped none))) ∨
    (¬ FailedLoad h op a ∧ ∃ top, Preparable q top ∧ u.table = s.table.readied h.slot q top) ∨
    (¬ FailedLoad h op a ∧ h.slot ≠ s.table.current ∧ h.slot ≠ kernelSlot ∧
      u.table = s.table.setSlot h.slot (some (q.settle .exited none))) := by
  have same {h' : ProcessHandle} {q' : Process} (live' : s.table.get h' = .ok q')
      (hh : some h' = some h) : h' = h ∧ q' = q := by
    obtain rfl := Option.some.inj hh
    exact ⟨rfl, Except.ok.inj (live'.symm.trans live)⟩
  cases effect with
  | prepareRefused => exact .inl ⟨nofun, rfl⟩
  | prepared live' can =>
    obtain ⟨rfl, rfl⟩ := same live' hop
    exact .inr (.inr (.inl ⟨nofun, _, can, rfl⟩))
  | loadRefused cause =>
    refine .inl ⟨?_, rfl⟩
    rintro ⟨_, c, -, ha⟩
    cases ha
    exact cause c rfl
  | @loadFailed _ image c _ _ live' state =>
    obtain ⟨rfl, rfl⟩ := same live' hop
    exact .inr (.inl ⟨⟨image, c, rfl, rfl⟩, state, rfl⟩)
  | loaded live' can =>
    obtain ⟨rfl, rfl⟩ := same live' hop
    exact .inr (.inr (.inl ⟨nofun, _, can, rfl⟩))
  | exitRefused => exact .inl ⟨nofun, rfl⟩
  | exited live' away user =>
    obtain ⟨rfl, rfl⟩ := same live' hop
    exact .inr (.inr (.inr ⟨nofun, away, user, rfl⟩))
  | _ => cases hop

theorem not_failedLoad_of_subject (hop : op.subject ≠ some h) : ¬ FailedLoad h op a := by
  rintro ⟨image, c, rfl, -⟩
  exact hop rfl

/-- Nothing happens to a process but by calls about it, ticks that stop or start it, and its removal
once it has exited. -/
theorem Effect.slot_stays (effect : Effect s op a u) {q : Process}
    (live : s.table.get h = .ok q) (away : h.slot ≠ s.table.current)
    (still : h.slot ≠ u.table.current) (hop : op.subject ≠ some h)
    (hreap : q.state = .exited → op ≠ .reap) : u.table.slots h.slot = some q := by
  have hq := (get_eq_ok.mp live).1
  have other {h' : ProcessHandle} {q' : Process} (live' : s.table.get h' = .ok q')
      (hne : some h' ≠ some h) : h.slot ≠ h'.slot := fun hs =>
    hne (congrArg some (handle_eq_of_slot live live' hs).symm)
  cases effect with
  | createRefused => exact hq
  | created free number issued =>
    change (s.table.added _ _).slots h.slot = some q
    rw [slots_added, if_neg]
    · exact hq
    · intro hs
      rw [hs, slots_freeSlot free] at hq
      cases hq
  | prepareRefused => exact hq
  | prepared live' can => exact (slots_setSlot_other _ _ (other live' hop)).trans hq
  | loadRefused cause => exact hq
  | loadFailed live' state => exact (slots_setSlot_other _ _ (other live' hop)).trans hq
  | loaded live' can => exact (slots_setSlot_other _ _ (other live' hop)).trans hq
  | exitRefused => exact hq
  | exited live' elsewhere user => exact (slots_setSlot_other _ _ (other live' hop)).trans hq
  | reaped =>
    rw [slots_reap_cases hq, if_neg]
    exact fun hs => hreap hs.2 rfl
  | kept alone => exact (slots_interrupted _ _ _ _).trans ((if_neg away).trans hq)
  | switched found elsewhere leaves enters saved =>
    exact (slots_switched _ _ _ elsewhere _).trans ((if_neg still).trans ((if_neg away).trans hq))

/-- Between ticks this holds of the current process too. -/
theorem Effect.slot_stays_between (controlled : Controlled s.table) (effect : Effect s op a u)
    {q : Process} (live : s.table.get h = .ok q)
    (hop : ∀ place registers, op ≠ .schedule place registers) (hsub : op.subject ≠ some h)
    (hreap : q.state = .exited → op ≠ .reap) : u.table.slots h.slot = some q := by
  obtain ⟨hcur, hslot⟩ := effect.current_stays controlled hop
  by_cases away : h.slot = s.table.current
  · rw [away, hslot, ← away]
    exact (get_eq_ok.mp live).1
  · exact effect.slot_stays live away (hcur.symm ▸ away) hsub hreap

/-- Calls about others leave a process that waits as it is, remove it, or let it run. -/
theorem Effect.stays_or_resumed (controlled : Controlled s.table) (effect : Effect s op a u)
    {q : Process} (live : s.table.get h = .ok q) (hrun : q.state ≠ .running)
    (hsub : op.subject ≠ some h) :
    u.table.get h = .ok q ∨ (q.state = .exited ∧ op = .reap) ∨
      ∃ place, q.saved = some place ∧ a = .resumed place ∧ u.table.currentHandle = h ∧
        u.table.get h = .ok (q.settle .running q.saved) := by
  obtain ⟨hq, hpid⟩ := get_eq_ok.mp live
  have away := controlled.slot_ne_current hq hrun
  by_cases still : h.slot = u.table.current
  · rcases effect.current_cases with hcur | ⟨r, place, hr, hplace, ha, hnow⟩
    · exact absurd (still.trans hcur) away
    · rw [← still] at hr hnow
      obtain rfl := Option.some.inj (hq.symm.trans hr)
      refine .inr (.inr ⟨place, hplace, ha, ?_, get_eq_ok.mpr ⟨hnow, hpid⟩⟩)
      rw [currentHandle, pidOf, ← still, hnow]
      exact congrArg (ProcessHandle.mk h.slot) hpid
  · by_cases hreap : q.state = .exited ∧ op = .reap
    · exact .inr (.inl hreap)
    · have hslot := effect.slot_stays live away still hsub fun hexited hop => hreap ⟨hexited, hop⟩
      exact .inl (get_eq_ok.mpr ⟨hslot, hpid⟩)

/-- A process without a place to go on from stays as it is until a call is about it. -/
theorem Effect.rests_stays (controlled : Controlled s.table) (effect : Effect s op a u)
    {state : ProcessState} (rests : Rests s.table h state) (hrun : state ≠ .running)
    (hsub : op.subject ≠ some h) (hreap : state = .exited → op ≠ .reap) :
    Rests u.table h state := by
  obtain ⟨q, live, rfl, hsaved⟩ := rests
  rcases effect.stays_or_resumed controlled live hrun hsub with
    live | ⟨hexited, hop⟩ | ⟨place, hplace, -⟩
  · exact ⟨q, live, rfl, hsaved⟩
  · exact absurd hop (hreap hexited)
  · rw [hsaved] at hplace
    cases hplace

theorem gone_reap (coherent : Coherent s.table) {q : Process} (live : s.table.get h = .ok q)
    (hexited : q.state = .exited) (effect : Effect s .reap a u) :
    u.table.slots h.slot = none ∧ Gone u.table h := by
  obtain ⟨hq, hpid⟩ := get_eq_ok.mp live
  have away : h.slot ≠ s.table.current :=
    coherent.slot_ne_current hq fun hrun => nomatch hexited.symm.trans hrun
  have hlt := coherent.pid_lt hq
  rcases effect with ⟨⟩
  have hnone : (s.table.reap s.machine).2.1.slots h.slot = none := by
    rw [slots_reap_cases hq, if_pos ⟨away, hexited⟩]
  refine ⟨hnone, ?_, ?_⟩
  · intro r hr
    have hr := (get_eq_ok.mp hr).1
    rw [hnone] at hr
    cases hr
  · change h.pid < (s.table.reap s.machine).2.1.nextPid
    rw [nextPid_reap]
    omega

/-- Numbers are never given out again. -/
theorem gone_step (gone : Gone s.table h) (effect : Effect s op a u) : Gone u.table h := by
  have hlt := gone.pid_lt
  rcases effect.descends_or_added with ⟨hd, hn⟩ | ⟨slot, new, -, -, hpid, -, hu⟩
  · refine ⟨?_, hn ▸ hlt⟩
    intro r hr
    obtain ⟨hr, hrpid⟩ := get_eq_ok.mp hr
    obtain ⟨q, hq, hrq⟩ := hd hr
    rw [hrq] at hrpid
    exact gone.not_live q (get_eq_ok.mpr ⟨hq, hrpid⟩)
  · refine ⟨?_, ?_⟩
    · intro r hr
      obtain ⟨hr, hrpid⟩ := get_eq_ok.mp hr
      rw [hu] at hr
      rcases slots_added_cases hr with ⟨-, rfl⟩ | ⟨-, hr⟩
      · omega
      · exact gone.not_live r (get_eq_ok.mpr ⟨hr, hrpid⟩)
    · rw [hu]
      exact Nat.lt_succ_of_lt hlt

end TableState
end KernelCore
