import KernelCore.Proofs.ProcessFates

/-!
# Integrity of contexts

The registers of a process that does not run are kept in a frame of its own. If every tick comes
with a frame of the process that was running, then nothing but that process and the calls about it
write its frames, and it goes on with the registers it was stopped with.
-/
namespace KernelCore

namespace FramePlace

/-- The frame is one of the process with this number: it lies on its stack, or outside the stacks,
where `owner` tells for every frame the process that uses it. -/
def BelongsTo (owner : Nat → Nat) (pid : Nat) : FramePlace → Prop
  | .outside id => owner id = pid
  | .onStack o _ => o = pid

instance (owner : Nat → Nat) (pid : Nat) (place : FramePlace) :
    Decidable (place.BelongsTo owner pid) :=
  match place with
  | .outside id => inferInstanceAs (Decidable (owner id = pid))
  | .onStack o _ => inferInstanceAs (Decidable (o = pid))

theorem BelongsTo.pid_eq {owner : Nat → Nat} {pid pid' : Nat} {place : FramePlace}
    (h : place.BelongsTo owner pid) (h' : place.BelongsTo owner pid') : pid = pid' := by
  cases place with
  | outside id => exact h.symm.trans h'
  | onStack o depth => exact h.symm.trans h'

end FramePlace

namespace TableState

open ProcessTable

variable {π : Type} [Platform π] {owner : Nat → Nat} {s t u v : TableState π} {op : Operation}
  {a : Answer} {h : ProcessHandle}

/-- If the call is a tick, its frame is one of the process that was running. -/
def Event.Disciplined (owner : Nat → Nat) (e : Event π) : Prop :=
  ∀ {place registers}, e.operation = .schedule place registers →
    place.BelongsTo owner e.before.table.currentHandle.pid

instance (owner : Nat → Nat) (e : Event π) : Decidable (e.Disciplined owner) :=
  match e with
  | ⟨s, .schedule place _, _⟩ =>
    if own : place.BelongsTo owner s.table.currentHandle.pid then
      isTrue fun hop => by
        cases hop
        exact own
    else isFalse fun disciplined => own (disciplined rfl)
  | ⟨_, .create .., _⟩ | ⟨_, .prepare _, _⟩ | ⟨_, .load .., _⟩ | ⟨_, .exit _, _⟩ | ⟨_, .reap, _⟩ =>
    isTrue nofun

/-- What a call writes to frames. -/
theorem Effect.frames_cases (effect : Effect s op a u) :
    u.table.frames = s.table.frames ∨
    (∃ h q top, op.subject = some h ∧ s.table.get h = .ok q ∧
      u.table.frames = (s.table.setFrame (initialPlace q) (initialFrame q top)).frames) ∨
    (∃ place registers, op = .schedule place registers ∧
      u.table.frames = (s.table.setFrame place registers).frames) := by
  cases effect with
  | prepared live can => exact .inr (.inl ⟨_, _, _, rfl, live, rfl⟩)
  | loaded live can => exact .inr (.inl ⟨_, _, _, rfl, live, rfl⟩)
  | kept alone => exact .inr (.inr ⟨_, _, rfl, rfl⟩)
  | switched found other leaves enters saved => exact .inr (.inr ⟨_, _, rfl, rfl⟩)
  | reaped => exact .inl (frames_reap s.table s.machine)
  | _ => exact .inl rfl

/-- The frames of a process are written by calls about it and by the ticks that stop it only. -/
theorem frames_kept (coherent : Coherent s.table) (effect : Effect s op a u) {q : Process}
    (live : s.table.get h = .ok q) {place : FramePlace} (own : place.BelongsTo owner h.pid)
    (disciplined : Event.Disciplined owner ⟨s, op, a⟩) (hsub : op.subject ≠ some h)
    (away : op.isTick = true → s.table.currentHandle ≠ h) :
    u.table.frames place = s.table.frames place := by
  rcases effect.frames_cases with hu | ⟨h', q', top, hop, live', hu⟩ | ⟨place', registers, hop, hu⟩
  · rw [hu]
  · rw [hu]
    apply frames_setFrame_other
    rintro rfl
    have hpid : h.pid = h'.pid := own.symm.trans (get_eq_ok.mp live').2
    rw [coherent.handle_eq_of_pid live live' hpid] at hsub
    exact hsub hop
  · rw [hu]
    apply frames_setFrame_other
    rintro rfl
    obtain ⟨r, live', -⟩ := coherent.get_currentHandle
    have hpid := own.pid_eq (disciplined hop)
    exact away (hop ▸ rfl) (coherent.handle_eq_of_pid live live' hpid).symm

/-- The place that a process goes on from is one of its own. -/
def SavedOwned (owner : Nat → Nat) (t : ProcessTable) : Prop :=
  ∀ ⦃slot q place⦄, t.slots slot = some q → q.saved = some place → place.BelongsTo owner q.pid

theorem savedOwned_new (space : AddressSpace) : SavedOwned owner (new space) := by
  intro slot q place hq hsaved
  rw [(eq_kernel_of_slots_new hq).2] at hsaved
  cases hsaved

theorem savedOwned_settle {t : ProcessTable} (owned : SavedOwned owner t) {slot : Fin maxProcesses}
    {q : Process} {state : ProcessState} {saved : Option FramePlace}
    (own : ∀ place, saved = some place → place.BelongsTo owner q.pid) :
    SavedOwned owner (t.setSlot slot (some (q.settle state saved))) := by
  intro slot' r place hr hsaved
  rcases slots_settle_cases hr with ⟨-, rfl⟩ | ⟨-, hr⟩
  · exact own place hsaved
  · exact owned hr hsaved

theorem savedOwned_tick (owned : SavedOwned owner s.table) {place : FramePlace}
    {registers : Trapframe} (disciplined : place.BelongsTo owner s.table.currentHandle.pid)
    (effect : Effect s (.schedule place registers) a u) : SavedOwned owner u.table := by
  have own {q : Process} (hq : s.table.slots s.table.current = some q) :
      place.BelongsTo owner q.pid := by
    rw [currentHandle, pidOf, hq] at disciplined
    exact disciplined
  cases effect with
  | kept alone =>
    intro slot r place' hr hsaved
    change (s.table.interrupted place registers).slots slot = some r at hr
    rw [slots_interrupted] at hr
    split at hr
    · rename_i hs
      obtain ⟨q, hq, rfl⟩ := Option.map_eq_some_iff.mp hr
      obtain rfl := Option.some.inj hsaved
      have owned' := own (hs ▸ hq)
      exact owned'
    · exact owned hr hsaved
  | switched found other leaves enters saved =>
    intro slot r place' hr hsaved
    change ((s.table.interrupted place registers).handOver _).slots slot = some r at hr
    rw [slots_switched _ _ _ other] at hr
    split at hr
    · obtain ⟨q, hq, rfl⟩ := Option.map_eq_some_iff.mp hr
      have kept := owned hq hsaved
      exact kept
    · split at hr
      · rename_i hs
        obtain ⟨q, hq, rfl⟩ := Option.map_eq_some_iff.mp hr
        obtain rfl := Option.some.inj hsaved
        have owned' := own (hs ▸ hq)
        exact owned'
      · exact owned hr hsaved

theorem savedOwned_effect (owned : SavedOwned owner s.table)
    (disciplined : Event.Disciplined owner ⟨s, op, a⟩) (effect : Effect s op a u) :
    SavedOwned owner u.table := by
  have readied {t : ProcessTable} (owned : SavedOwned owner t) {slot : Fin maxProcesses}
      {q : Process} {top : Nat} : SavedOwned owner (t.readied slot q top) := by
    have frame : SavedOwned owner (t.setFrame (initialPlace q) (initialFrame q top)) := owned
    refine savedOwned_settle frame fun place hplace => ?_
    obtain rfl := Option.some.inj hplace
    rfl
  cases effect with
  | createRefused => exact owned
  | created free number issued =>
    intro slot r place hr hsaved
    rcases slots_added_cases hr with ⟨-, rfl⟩ | ⟨-, hr⟩
    · cases hsaved
    · exact owned hr hsaved
  | prepareRefused => exact owned
  | prepared live can => exact readied owned
  | loadRefused cause => exact owned
  | loadFailed live state => exact savedOwned_settle owned nofun
  | loaded live can => exact readied owned
  | exitRefused => exact owned
  | exited live away user => exact savedOwned_settle owned nofun
  | reaped =>
    intro slot r place hr hsaved
    change (s.table.reap s.machine).2.1.slots slot = some r at hr
    exact owned (slots_of_reap hr) hsaved
  | kept alone => exact savedOwned_tick owned (disciplined rfl) (.kept alone)
  | switched found other leaves enters saved =>
    exact savedOwned_tick owned (disciplined rfl) (.switched found other leaves enters saved)

/-- Calls during which the process does not run. -/
structure Away (owner : Nat → Nat) (h : ProcessHandle) (t : TableState π) (more : List (Event π))
    (u : TableState π) : Prop where
  run : Run t more u
  disciplined : ∀ e ∈ more, e.Disciplined owner
  before : ∀ e ∈ more, e.before.table.currentHandle ≠ h
  after : u.table.currentHandle ≠ h

/-- What the calls keep as long as they do not let the process run holds at their end. -/
theorem Away.invariant {more : List (Event π)} (away : Away owner h t more u)
    (inv : TableState π → Prop) (first : inv t)
    (keep : ∀ e ∈ more, ∀ v, inv e.before → Step e.before e.operation e.answer v →
      v.table.currentHandle ≠ h → inv v) : inv u := by
  obtain ⟨run, -, before, after⟩ := away
  induction run with
  | refl => exact first
  | @step history v op a w run last ih =>
    -- The state that the last call leads from was the end of the calls before it.
    have hv := before ⟨v, op, a⟩ (by simp)
    refine keep ⟨v, op, a⟩ (by simp) w (ih ?_ ?_ hv) last after
    · intro e he
      exact keep e (by simp [he])
    · intro e he
      exact before e (by simp [he])

/-- A tick lets the process run. -/
def Resumes (owner : Nat → Nat) (h : ProcessHandle) (u : TableState π) (a : Answer)
    (v : TableState π) : Prop :=
  ∃ place registers, Step u (.schedule place registers) a v ∧
    place.BelongsTo owner u.table.currentHandle.pid ∧ v.table.currentHandle = h

theorem Away.first {more : List (Event π)} (away : Away owner h t more u) :
    t.table.currentHandle ≠ h := by
  obtain ⟨run, -, before, after⟩ := away
  induction run with
  | refl => exact after
  | @step history v op a w run last ih =>
    have hv := before ⟨v, op, a⟩ (by simp)
    exact ih (fun e he => before e (by simp [he])) hv

/-- The process has been stopped: it goes on at this place, where its registers are kept. -/
structure Parked (t : ProcessTable) (h : ProcessHandle) (place : FramePlace)
    (registers : Trapframe) : Prop where
  waiting : ∃ q, t.get h = .ok q ∧ q.state = .ready ∧ q.saved = some place
  frame : t.frames place = registers

section Parked

variable {place : FramePlace} {registers : Trapframe}

theorem parked_of_preempted (effect : Effect s (.schedule place registers) a t)
    (coherent : Coherent s.table) (away : t.table.currentHandle ≠ s.table.currentHandle) :
    Parked t.table s.table.currentHandle place registers := by
  obtain ⟨q, live, hrun⟩ := coherent.get_currentHandle
  obtain ⟨hq, hpid⟩ := get_eq_ok.mp live
  change s.table.slots s.table.current = some q at hq
  cases effect with
  | kept alone => exact absurd (s.table.currentHandle_interrupted place registers) away
  | @switched _ _ next old new resumed found other leaves enters saved =>
    have hnow := slots_switched s.table place registers other s.table.current
    rw [if_neg other.symm, if_pos rfl, hq] at hnow
    refine ⟨⟨_, get_eq_ok.mpr ⟨hnow, hpid⟩, ?_, rfl⟩, frames_setFrame_self _ _ _⟩
    rw [Process.settle_state, if_pos hrun]

/-- A parked process is left alone until a tick lets it run, with the registers it was stopped
with. -/
theorem parked_step (coherent : Coherent s.table) (parked : Parked s.table h place registers)
    (own : place.BelongsTo owner h.pid) (disciplined : Event.Disciplined owner ⟨s, op, a⟩)
    (effect : Effect s op a u) (away : s.table.currentHandle ≠ h) (hsub : op.subject ≠ some h) :
    Parked u.table h place registers ∨
      (u.table.currentHandle = h ∧ a = .resumed place ∧ u.table.frames place = registers) := by
  obtain ⟨⟨q, live, hready, hsaved⟩, hframe⟩ := parked
  have kept := frames_kept coherent effect live own disciplined hsub fun _ => away
  have hrun : q.state ≠ .running := fun hrun => nomatch hready.symm.trans hrun
  rcases effect.stays_or_resumed coherent.toControlled live hrun hsub with
    live | ⟨hexited, -⟩ | ⟨place', hplace, ha, hcur, -⟩
  · exact .inl ⟨⟨q, live, hready, hsaved⟩, kept.trans hframe⟩
  · cases hready.symm.trans hexited
  · obtain rfl := Option.some.inj (hsaved.symm.trans hplace)
    exact .inr ⟨hcur, ha, kept.trans hframe⟩

theorem parked_run {more : List (Event π)} (away : Away owner h t more u)
    (others : ∀ e ∈ more, e.operation.subject ≠ some h) (coherent : Coherent t.table)
    (own : place.BelongsTo owner h.pid) (parked : Parked t.table h place registers) :
    Parked u.table h place registers := by
  have both : Coherent u.table ∧ Parked u.table h place registers := by
    apply away.invariant (fun v => Coherent v.table ∧ Parked v.table h place registers)
    · exact ⟨coherent, parked⟩
    · intro e he v ⟨coherent, parked⟩ step after
      have effect := effect_of_coherent coherent step
      refine ⟨coherent_effect coherent effect, ?_⟩
      rcases parked_step coherent parked own (away.disciplined e he) effect (away.before e he)
        (others e he) with parked | ⟨hcur, -⟩
      · exact parked
      · exact absurd hcur after
  exact both.2

theorem Parked.currentHandle_ne {t : ProcessTable} (parked : Parked t h place registers)
    (controlled : Controlled t) : t.currentHandle ≠ h := by
  obtain ⟨q, live, hready, -⟩ := parked.waiting
  refine controlled.currentHandle_ne fun r live' hrun => ?_
  obtain rfl := Except.ok.inj (live.symm.trans live')
  cases hready.symm.trans hrun

theorem parked_resumes (coherent : Coherent u.table) (parked : Parked u.table h place registers)
    (own : place.BelongsTo owner h.pid) (resumes : Resumes owner h u a v) :
    a = .resumed place ∧ v.table.frames place = registers := by
  have away := parked.currentHandle_ne coherent.toControlled
  obtain ⟨place', registers', step, own', hcur⟩ := resumes
  have disciplined : Event.Disciplined owner ⟨u, .schedule place' registers', a⟩ := by
    intro place'' registers'' hop
    cases hop
    exact own'
  rcases parked_step coherent parked own disciplined (effect_of_coherent coherent step) away nofun
    with parked | ⟨-, ha, hframe⟩
  · exact absurd hcur (parked.currentHandle_ne (coherent_step coherent step).toControlled)
  · exact ⟨ha, hframe⟩

end Parked

/-- The call has made the process ready to start. -/
def Readies (h : ProcessHandle) (op : Operation) (a : Answer) : Prop :=
  (∃ place, op = .prepare h ∧ a = .prepared (.ok place)) ∨
    ∃ image info, op = .load h image ∧ a = .loaded (.ok info)

/-- The process did not run since it was made ready, whatever else was done to it: it starts from
its entry point or does not go on at all. -/
structure Primed (t : ProcessTable) (h : ProcessHandle) (q : Process) (top : Nat) : Prop where
  waiting : ∃ state saved, t.get h = .ok (q.settle state saved) ∧ state ≠ .running ∧
    (saved = none ∨ saved = some (initialPlace q))
  frame : t.frames (initialPlace q) = initialFrame q top

theorem primed_readied {t : ProcessTable} {q : Process} {top : Nat} (live : t.get h = .ok q) :
    Primed (t.readied h.slot q top) h q top := by
  refine ⟨⟨.ready, some (initialPlace q), get_eq_ok.mpr ⟨?_, ?_⟩, nofun, .inr rfl⟩, ?_⟩
  · rw [slots_readied, if_pos rfl]
  · exact (get_eq_ok.mp live).2
  · exact frames_setFrame_self t (initialPlace q) (initialFrame q top)

theorem primed_of_readies {q : Process} (live : s.table.get h = .ok q) (readies : Readies h op a)
    (effect : Effect s op a t) : ∃ top, q.stackTop = some top ∧ Primed t.table h q top ∧
      ∀ place, a = .prepared (.ok place) → place = initialPlace q := by
  have same {q' : Process} (live' : s.table.get h = .ok q') : q' = q :=
    Except.ok.inj (live'.symm.trans live)
  rcases readies with ⟨place, rfl, rfl⟩ | ⟨image, info, rfl, rfl⟩
  · cases effect with
    | prepared live' can =>
      obtain rfl := same live'
      refine ⟨_, can.stackTop, primed_readied live, ?_⟩
      intro place hplace
      cases hplace
      rfl
  · cases effect with
    | loaded live' can =>
      obtain rfl := same live'
      exact ⟨_, can.stackTop, primed_readied live, nofun⟩

section Primed

variable {q : Process} {top : Nat}

theorem primed_of_subject (primed : Primed s.table h q top) (htop : q.stackTop = some top)
    (effect : Effect s op a u) (hop : op.subject = some h) : Primed u.table h q top := by
  obtain ⟨⟨state, saved, live, hstate, hsaved⟩, hframe⟩ := primed
  have hpid : q.pid = h.pid := (get_eq_ok.mp live).2
  have settled (state' : ProcessState) (hstate' : state' ≠ .running) :
      Primed (s.table.setSlot h.slot (some (q.settle state' none))) h q top := by
    refine ⟨⟨state', none, get_eq_ok.mpr ⟨?_, hpid⟩, hstate', .inl rfl⟩, hframe⟩
    exact slots_setSlot_self _ _ _
  rcases effect.subject_cases live hop with
    ⟨-, hu⟩ | ⟨-, -, hu⟩ | ⟨-, top', can, hu⟩ | ⟨-, -, -, hu⟩
  · rw [hu]
    exact ⟨⟨state, saved, live, hstate, hsaved⟩, hframe⟩
  · rw [hu]
    exact settled .stopped nofun
  · -- Making it ready once more writes the same frame at the same place.
    have htop' : q.stackTop = some top' := can.stackTop
    obtain rfl := Option.some.inj (htop.symm.trans htop')
    rw [hu]
    refine ⟨⟨.ready, some (initialPlace q), get_eq_ok.mpr ⟨?_, hpid⟩, nofun, .inr rfl⟩, ?_⟩
    · rw [slots_readied, if_pos rfl]
      rfl
    · exact frames_setFrame_self s.table (initialPlace q) (initialFrame q top)
  · rw [hu]
    exact settled .exited nofun

theorem primed_step (coherent : Coherent s.table) (primed : Primed s.table h q top)
    (htop : q.stackTop = some top) (disciplined : Event.Disciplined owner ⟨s, op, a⟩)
    (effect : Effect s op a u) (away : s.table.currentHandle ≠ h) :
    (Primed u.table h q top ∨ Gone u.table h) ∨
      (u.table.currentHandle = h ∧ a = .resumed (initialPlace q) ∧
        u.table.frames (initialPlace q) = initialFrame q top) := by
  by_cases hsub : op.subject = some h
  · exact .inl (.inl (primed_of_subject primed htop effect hsub))
  · obtain ⟨⟨state, saved, live, hstate, hsaved⟩, hframe⟩ := primed
    have hpid : q.pid = h.pid := (get_eq_ok.mp live).2
    have own : (initialPlace q).BelongsTo owner h.pid := hpid
    have kept := frames_kept coherent effect live own disciplined hsub fun _ => away
    rcases effect.stays_or_resumed coherent.toControlled live hstate hsub with
      live' | ⟨hexited, rfl⟩ | ⟨place, hplace, ha, hcur, -⟩
    · exact .inl (.inl ⟨⟨state, saved, live', hstate, hsaved⟩, kept.trans hframe⟩)
    · exact .inl (.inr (gone_reap coherent live hexited effect).2)
    · rw [Process.settle_saved] at hplace
      rcases hsaved with rfl | rfl
      · cases hplace
      · obtain rfl := Option.some.inj hplace
        exact .inr ⟨hcur, ha, kept.trans hframe⟩

theorem primed_run {more : List (Event π)} (away : Away owner h t more u)
    (coherent : Coherent t.table) (htop : q.stackTop = some top)
    (primed : Primed t.table h q top) : Primed u.table h q top ∨ Gone u.table h := by
  have both : Coherent u.table ∧ (Primed u.table h q top ∨ Gone u.table h) := by
    apply away.invariant fun v => Coherent v.table ∧ (Primed v.table h q top ∨ Gone v.table h)
    · exact ⟨coherent, .inl primed⟩
    · intro e he v ⟨coherent, here⟩ step after
      have effect := effect_of_coherent coherent step
      refine ⟨coherent_effect coherent effect, ?_⟩
      rcases here with primed | gone
      · rcases primed_step coherent primed htop (away.disciplined e he) effect (away.before e he)
          with here | ⟨hcur, -⟩
        · exact here
        · exact absurd hcur after
      · exact .inr (gone_step gone effect)
  exact both.2

theorem Primed.currentHandle_ne {t : ProcessTable} (primed : Primed t h q top)
    (controlled : Controlled t) : t.currentHandle ≠ h := by
  obtain ⟨state, saved, live, hstate, -⟩ := primed.waiting
  refine controlled.currentHandle_ne fun r live' => ?_
  obtain rfl := Except.ok.inj (live.symm.trans live')
  exact hstate

theorem primed_resumes (coherent : Coherent u.table)
    (primed : Primed u.table h q top ∨ Gone u.table h) (htop : q.stackTop = some top)
    (resumes : Resumes owner h u a v) :
    a = .resumed (initialPlace q) ∧ v.table.frames (initialPlace q) = initialFrame q top := by
  obtain ⟨place, registers, step, own, hcur⟩ := resumes
  have controlled : Controlled v.table := (coherent_step coherent step).toControlled
  have effect := effect_of_coherent coherent step
  rcases primed with primed | gone
  · have away := primed.currentHandle_ne coherent.toControlled
    have disciplined : Event.Disciplined owner ⟨u, .schedule place registers, a⟩ := by
      intro place' registers' hop
      cases hop
      exact own
    rcases primed_step coherent primed htop disciplined effect away with
      (primed | gone) | ⟨-, started⟩
    · exact absurd hcur (primed.currentHandle_ne controlled)
    · exact absurd hcur (gone.currentHandle_ne controlled)
    · exact started
  · exact absurd hcur ((gone_step gone effect).currentHandle_ne controlled)

end Primed

/-- Contexts stay intact along every run with disciplined ticks. The place that a process goes on
from is one of its own, and nobody else writes its frames. A process that is stopped by a tick and
left alone goes on at the same place with the same registers; a process that was made ready and did
not run since starts with its initial frame. -/
theorem contexts_intact {p : π} {history : List (Event π)} (run : Run (start p) history s)
    (disciplined : ∀ e ∈ history, e.Disciplined owner) :
    (∀ {h q place}, s.table.get h = .ok q → q.saved = some place →
      place.BelongsTo owner h.pid) ∧
    (∀ {h q place op a u}, s.table.get h = .ok q → place.BelongsTo owner h.pid → Step s op a u →
      Event.Disciplined owner ⟨s, op, a⟩ → op.subject ≠ some h →
      (op.isTick = true → s.table.currentHandle ≠ h) →
      u.table.frames place = s.table.frames place) ∧
    (∀ {place registers a t more u b v}, Step s (.schedule place registers) a t →
      place.BelongsTo owner s.table.currentHandle.pid →
      Away owner s.table.currentHandle t more u →
      (∀ e ∈ more, e.operation.subject ≠ some s.table.currentHandle) →
      Resumes owner s.table.currentHandle u b v →
      b = .resumed place ∧ v.table.frames place = registers) ∧
    (∀ {h q op a t more u b v}, s.table.get h = .ok q → Readies h op a → Step s op a t →
      Away owner h t more u → Resumes owner h u b v →
      ∃ top, q.stackTop = some top ∧ (∀ place, a = .prepared (.ok place) → place = initialPlace q) ∧
        t.table.frames (initialPlace q) = initialFrame q top ∧
        b = .resumed (initialPlace q) ∧ v.table.frames (initialPlace q) = initialFrame q top) := by
  have both : Coherent s.table ∧ SavedOwned owner s.table := by
    refine run.invariant (fun v => Coherent v.table ∧ SavedOwned owner v.table) ?_ ?_
    · exact ⟨coherent_new (activeSpace p), savedOwned_new (activeSpace p)⟩
    · intro e he v hv step
      have effect := effect_of_coherent hv.1 step
      exact ⟨coherent_effect hv.1 effect, savedOwned_effect hv.2 (disciplined e he) effect⟩
  obtain ⟨coherent, owned⟩ := both
  refine ⟨?_, ?_, ?_, ?_⟩
  · intro h q place live hsaved
    obtain ⟨hq, hpid⟩ := get_eq_ok.mp live
    exact hpid ▸ owned hq hsaved
  · intro h q place op a u live own step disciplined hsub away
    exact frames_kept coherent (effect_of_coherent coherent step) live own disciplined hsub away
  · intro place registers a t more u b v step own away others resumes
    have effect := effect_of_coherent coherent step
    have ht := coherent_effect coherent effect
    have parked := parked_of_preempted effect coherent away.first
    have here := parked_run away others ht own parked
    exact parked_resumes (away.run.coherent ht) here own resumes
  · intro h q op a t more u b v live readies step away resumes
    have effect := effect_of_coherent coherent step
    have ht := coherent_effect coherent effect
    obtain ⟨top, htop, primed, hplace⟩ := primed_of_readies live readies effect
    have here := primed_run away ht htop primed
    exact ⟨top, htop, hplace, primed.frame, primed_resumes (away.run.coherent ht) here htop resumes⟩

/-- The kernel's own process and the first one have both run. -/
def turnCalls : List Operation :=
  [.create "init" 0x400000 false, .prepare .first, .schedule (.outside 0) {},
    .schedule (.onStack 2 512) {}]

def turned : TableState FlatMachine := flatStart.after turnCalls

/-- The kernel's own process has given way once more. -/
def parkedKernel : TableState FlatMachine := turned.after [.schedule (.outside 1) { rax := 7 }]

theorem contexts_intact_turned :
    Run flatStart (flatStart.record turnCalls) turned ∧
    (∀ e ∈ flatStart.record turnCalls, e.Disciplined fun _ => 1) ∧
    Away (fun _ => 1) .kernel parkedKernel (parkedKernel.record [.reap])
      (parkedKernel.after [.reap]) ∧
    (∃ b v, Resumes (fun _ => 1) .kernel (parkedKernel.after [.reap]) b v) ∧
    ∀ {b v}, Resumes (fun _ => 1) .kernel (parkedKernel.after [.reap]) b v →
      b = .resumed (.outside 1) ∧ v.table.frames (.outside 1) = { rax := 7 } := by
  have run : Run flatStart (flatStart.record turnCalls) turned :=
    run_record flatStart turnCalls (by decide)
  have disciplined : ∀ e ∈ flatStart.record turnCalls, e.Disciplined fun _ => 1 := by decide
  have away : Away (fun _ => 1) .kernel parkedKernel (parkedKernel.record [.reap])
      (parkedKernel.after [.reap]) :=
    ⟨run_record parkedKernel [.reap] (by decide), by decide, by decide, by decide⟩
  have next : ∃ b v, Resumes (fun _ => 1) .kernel (parkedKernel.after [.reap]) b v :=
    ⟨_, _, .onStack 2 256, {}, ⟨rfl, nofun⟩, rfl, rfl⟩
  refine ⟨run, disciplined, away, next, fun resumes => ?_⟩
  obtain ⟨-, -, stopped, -⟩ := contexts_intact run disciplined
  exact stopped ⟨rfl, nofun⟩ rfl away (by decide) resumes

end TableState
end KernelCore
