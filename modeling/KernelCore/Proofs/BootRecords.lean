import KernelCore.BootStatus
import Mathlib.Data.List.Nodup

/-!
# What a boot leaves on record

A boot runs its phases one after the other, up to the first one that fails. Afterwards every
component that a phase was run for is on record once, in the order in which they first came up, with
the outcome of the last phase that was run for it. `Records` says so of a boot and the phases it has
run; each phase that is run goes on record after the ones before it.
-/
namespace KernelCore

/-- A phase without phases inside it, and the reason for which it fails, if it does. -/
structure SimplePhase where
  name : String
  failure : Option String
  deriving DecidableEq, Repr

namespace SimplePhase

def phase (p : SimplePhase) : Phase := .mk p.name [] p.failure

def result (p : SimplePhase) : Except String Unit :=
  match p.failure with
  | none => .ok ()
  | some reason => .error reason

/-- What the component of a phase has come to after it. -/
def outcome (p : SimplePhase) : ComponentStatus :=
  match p.failure with
  | none => .completed
  | some reason => .failed reason

/-- The notice of a phase that was run. -/
def notice (p : SimplePhase) : Notice :=
  match p.failure with
  | none => .info ("[ OK ] " ++ p.name)
  | some reason => .error ("[FAIL] " ++ p.name ++ ": " ++ reason)

/-- The phases before the first that fails, and that one. -/
def started (phases : List SimplePhase) : List SimplePhase :=
  phases.takeWhile (·.failure = none) ++ (phases.dropWhile (·.failure = none)).take 1

/-- The last of the phases with a name. -/
def lastNamed (name : String) (phases : List SimplePhase) : Option SimplePhase :=
  (phases.filter (·.name = name)).getLast?

variable {p : SimplePhase} {phases : List SimplePhase} {name : String}

@[simp] theorem started_nil : started [] = [] := rfl

theorem started_cons :
    started (p :: phases) = p :: if p.failure = none then started phases else [] := by
  by_cases h : p.failure = none <;> simp [started, h]

/-- No phase comes after one that failed. -/
theorem eq_concat_of_failure (here : p ∈ started phases) (failed : p.failure ≠ none) :
    ∃ before, started phases = before ++ [p] := by
  induction phases with
  | nil => simp at here
  | cons q phases ih =>
    rw [started_cons] at here ⊢
    by_cases h : q.failure = none
    · simp only [h, if_true, List.mem_cons] at here ⊢
      rcases here with rfl | later
      · exact absurd h failed
      · obtain ⟨before, rest⟩ := ih later
        exact ⟨q :: before, by rw [rest, List.cons_append]⟩
    · simp only [h, if_false, List.mem_singleton] at here ⊢
      exact ⟨[], by rw [here, List.nil_append]⟩

theorem lastNamed_concat :
    lastNamed name (phases ++ [p]) = if p.name = name then some p else lastNamed name phases := by
  by_cases h : p.name = name <;> simp [lastNamed, h]

theorem mem_of_lastNamed (h : lastNamed name phases = some p) : p ∈ phases :=
  (List.mem_filter.mp (List.mem_of_getLast? h)).1

theorem outcome_eq_completed_iff : p.outcome = .completed ↔ p.failure = none := by
  rw [outcome]
  cases p.failure <;> simp

end SimplePhase

theorem eraseDups_concat (names : List String) (name : String) :
    (names ++ [name]).eraseDups = names.eraseDups ++ if name ∈ names then [] else [name] := by
  by_cases h : name ∈ names <;> simp [List.eraseDups_append, List.removeAll, List.eraseDups_cons, h]

namespace Boot

variable {b : Boot} {p : SimplePhase} {ran : List SimplePhase} {name other : String}
  {status : ComponentStatus}

def names (b : Boot) : List String := b.components.map Component.name

theorem names_register :
    (b.register name).names = b.names ++ if name ∈ b.names then [] else [name] := by
  have known : b.components.any (·.name = name) = decide (name ∈ b.names) := by
    simp [names, List.any_eq]
  rw [register, known]
  by_cases h : name ∈ b.names
  · simp [h]
  · rw [if_neg (by simpa using h), if_neg h, names, List.map_append]
    rfl

theorem map_name_setFirst (components : List Component) :
    (setFirst name status components).map Component.name = components.map Component.name := by
  induction components with
  | nil => rfl
  | cons c rest ih => by_cases h : c.name = name <;> simp [setFirst, h, ih]

theorem names_update : (b.update name status).names = b.names := map_name_setFirst b.components

theorem status?_isSome : (b.status? name).isSome ↔ name ∈ b.names := by
  simp [status?, names]

theorem status?_of_mem {c : Component} (nodup : b.names.Nodup) (here : c ∈ b.components) :
    b.status? c.name = some c.status := by
  cases found : b.components.find? (·.name = c.name) with
  | none => simpa using List.find?_eq_none.mp found c here
  | some d =>
    have same : d = c := List.inj_on_of_nodup_map nodup (List.mem_of_find?_eq_some found) here
      (by simpa using List.find?_some found)
    simp [status?, found, same]

theorem mem_of_status? (h : b.status? name = some status) :
    ∃ c ∈ b.components, c.status = status := by
  obtain ⟨c, found, same⟩ := Option.map_eq_some_iff.mp h
  exact ⟨c, List.mem_of_find?_eq_some found, same⟩

theorem ready_iff : b.ready = true ↔ b.names ≠ [] ∧ ∀ c ∈ b.components, c.status = .completed := by
  simp [ready, names]

theorem status?_register_other (h : other ≠ name) :
    (b.register name).status? other = b.status? other := by
  rw [register]
  split
  · rfl
  · simp [status?, h.symm]

theorem find?_setFirst_self (components : List Component) :
    (setFirst name status components).find? (·.name = name) =
      (components.find? (·.name = name)).map fun _ => ⟨name, status⟩ := by
  induction components with
  | nil => rfl
  | cons c rest ih => by_cases h : c.name = name <;> simp [setFirst, h, ih]

theorem find?_setFirst_other (h : other ≠ name) (components : List Component) :
    (setFirst name status components).find? (·.name = other) =
      components.find? (·.name = other) := by
  induction components with
  | nil => rfl
  | cons c rest ih =>
    by_cases here : c.name = name
    · simp [setFirst, here, h.symm]
    · rw [setFirst, if_neg here, List.find?_cons, List.find?_cons, ih]

theorem status?_update : (b.update name status).status? other =
    if other = name then (b.status? other).map fun _ => status else b.status? other := by
  rw [status?, status?, update]
  split
  · rename_i here
    rw [here, find?_setFirst_self, Option.map_map, Option.map_map]
    rfl
  · rename_i apart
    rw [find?_setFirst_other apart]

/-- A phase goes on record: its component is registered, set up, and has come to an outcome. -/
def settle (b : Boot) (p : SimplePhase) : Boot :=
  ((b.register p.name).update p.name .inProgress).update p.name p.outcome

theorem names_settle :
    (b.settle p).names = b.names ++ if p.name ∈ b.names then [] else [p.name] := by
  rw [settle, names_update, names_update, names_register]

theorem status?_settle :
    (b.settle p).status? name = if name = p.name then some p.outcome else b.status? name := by
  by_cases h : name = p.name
  · have there : name ∈ (b.register p.name).names := by
      rw [names_register, h]
      by_cases known : p.name ∈ b.names <;> simp [known]
    obtain ⟨status, found⟩ := Option.isSome_iff_exists.mp (status?_isSome.mpr there)
    simp [settle, status?_update, h, h ▸ found]
  · simp [settle, status?_update, h, status?_register_other h]

theorem notices_settle : (b.settle p).notices = b.notices := by
  simp only [settle, update, register]
  split <;> rfl

/-- A phase that is run goes on record and is reported. -/
theorem run_phase (p : SimplePhase) (b : Boot) :
    p.phase.run b = (p.result, Journal.note p.notice (b.settle p)) := by
  rcases p with ⟨name, _ | reason⟩ <;> rfl

/-- These phases are on record, and these only. -/
structure Records (b : Boot) (ran : List SimplePhase) : Prop where
  nodup : b.names.Nodup
  names : b.names = (ran.map SimplePhase.name).eraseDups
  status : ∀ name, b.status? name = (SimplePhase.lastNamed name ran).map SimplePhase.outcome
  notices : b.notices = ran.map SimplePhase.notice

theorem records_nil : Records {} [] := ⟨List.nodup_nil, rfl, fun _ => rfl, rfl⟩

/-- What holds of the phases before goes on to hold when one more is run. -/
theorem Records.run (records : b.Records ran) (p : SimplePhase) :
    (p.phase.run b).2.Records (ran ++ [p]) := by
  have known : p.name ∈ b.names ↔ p.name ∈ ran.map SimplePhase.name := by
    rw [records.names, List.mem_eraseDups]
  have names : (p.phase.run b).2.names =
      b.names ++ if p.name ∈ b.names then [] else [p.name] := by
    rw [run_phase]
    exact names_settle
  constructor
  · rw [names]
    by_cases h : p.name ∈ b.names
    · simpa [h] using records.nodup
    · simpa [h] using records.nodup.concat h
  · rw [names, List.map_append, List.map_singleton, eraseDups_concat, records.names]
    simp only [List.mem_eraseDups]
  · intro name
    rw [run_phase, SimplePhase.lastNamed_concat]
    refine Eq.trans status?_settle ?_
    by_cases h : p.name = name
    · simp [h]
    · simp [h, Ne.symm h, records.status]
  · rw [run_phase, List.map_append, ← records.notices]
    exact congrArg (· ++ [p.notice]) notices_settle

/-- The phases go on record up to the first that fails, whose reason is the result. -/
theorem Records.runAll (records : b.Records ran) (phases : List SimplePhase) :
    (Phase.runAll (phases.map SimplePhase.phase) b).2.Records
      (ran ++ SimplePhase.started phases) ∧
    (Phase.runAll (phases.map SimplePhase.phase) b).1 =
      match phases.findSome? SimplePhase.failure with
      | some reason => .error reason
      | none => .ok () := by
  induction phases generalizing b ran with
  | nil => simpa [Phase.runAll] using records
  | cons p phases ih =>
    have next := records.run p
    have settled := run_phase p b
    rw [settled] at next
    rw [List.map_cons, Phase.runAll, settled, SimplePhase.started_cons, List.findSome?_cons,
      SimplePhase.result]
    cases failure : p.failure with
    | none => simpa using ih next
    | some reason => simpa using next

theorem runAll_append (phases later : List Phase) (b : Boot) :
    Phase.runAll (phases ++ later) b =
      match Phase.runAll phases b with
      | (.error reason, b) => (.error reason, b)
      | (.ok (), b) => Phase.runAll later b := by
  induction phases generalizing b with
  | nil => rfl
  | cons phase phases ih =>
    rw [List.cons_append, Phase.runAll, Phase.runAll]
    rcases phase.run b with ⟨_ | _, b⟩
    · rfl
    · exact ih b

/-- Phases that come after one that fails make no difference. -/
theorem runAll_append_of_failed {phases : List Phase} (failed : (Phase.runAll phases b).1 ≠ .ok ())
    (later : List Phase) : Phase.runAll (phases ++ later) b = Phase.runAll phases b := by
  rw [runAll_append]
  rcases h : Phase.runAll phases b with ⟨_ | _, b⟩
  · rfl
  · rw [h] at failed
    exact absurd rfl failed

/-- All components are set up exactly if a phase has been run and none has failed. -/
theorem Records.ready_iff {phases : List SimplePhase}
    (records : b.Records (SimplePhase.started phases)) :
    b.ready = true ↔ SimplePhase.started phases ≠ [] ∧
      ∀ p ∈ SimplePhase.started phases, p.failure = none := by
  have some_names : b.names ≠ [] ↔ SimplePhase.started phases ≠ [] := by
    rw [records.names]
    cases SimplePhase.started phases <;> simp [List.eraseDups_cons]
  rw [Boot.ready_iff, some_names]
  apply and_congr_right
  intro _
  constructor
  · intro completed p here
    by_contra failed
    obtain ⟨before, last⟩ := SimplePhase.eq_concat_of_failure here failed
    have status := records.status p.name
    rw [last, SimplePhase.lastNamed_concat, if_pos rfl] at status
    obtain ⟨c, there, same⟩ := mem_of_status? status
    rw [completed c there] at same
    exact failed (SimplePhase.outcome_eq_completed_iff.mp same.symm)
  · intro fine c here
    have status := (status?_of_mem records.nodup here).symm.trans (records.status c.name)
    obtain ⟨p, last, same⟩ := Option.map_eq_some_iff.mp status.symm
    rw [← same, SimplePhase.outcome_eq_completed_iff]
    exact fine p (SimplePhase.mem_of_lastNamed last)

/-- Whatever the phases are and however their names repeat: after they have been run, each component
of a phase that was run is on record once, in the order in which the names first came up, and its
status is the outcome of the last phase that was run under its name. Those are the phases up to the
first that fails, and its reason is the result; whatever phases come after them would change
nothing. All components are set up exactly if there was a phase and none failed. -/
theorem boot_recorded (phases : List SimplePhase) :
    let ran := SimplePhase.started phases
    let boot := Phase.runAll (phases.map SimplePhase.phase) {}
    (boot.2.names.Nodup ∧ boot.2.names = (ran.map SimplePhase.name).eraseDups) ∧
      boot.2.notices = ran.map SimplePhase.notice ∧
      (∀ name, boot.2.status? name =
        (SimplePhase.lastNamed name ran).map SimplePhase.outcome) ∧
      (boot.1 = match phases.findSome? SimplePhase.failure with
        | some reason => .error reason
        | none => .ok ()) ∧
      (boot.1 ≠ .ok () → ∀ later : List Phase,
        Phase.runAll (phases.map SimplePhase.phase ++ later) {} = boot) ∧
      (boot.2.ready = true ↔ ran ≠ [] ∧ ∀ p ∈ ran, p.failure = none) := by
  intro ran boot
  obtain ⟨records, result⟩ := records_nil.runAll phases
  rw [List.nil_append] at records
  exact ⟨⟨records.nodup, records.names⟩, records.notices, records.status, result,
    runAll_append_of_failed, records.ready_iff⟩

end Boot
end KernelCore
