import KernelCore.Proofs.ExecutionState
import KernelCore.Proofs.ExitedProcesses
import KernelCore.Proofs.LoadAtomicity

/-!
# Loads that a process refuses

Loading an image for a process switches to its space, loads, switches back and makes the process
ready to run. An error of the first part is undone. An error of the last part comes too late: it is
answered at once, and the image stays mapped. A process that has exited is refused there, and so is
the kernel's own process, which has no stack to start from.
-/
namespace KernelCore

variable {π : Type} [Platform π] [LawfulMemory π]

/-- Whether the calls have left all mappings alone, and whether they have given back what they
took, are the same question as `P`. -/
structure RecoversIff (P : Prop) (t u : Traced π) (made : List Call) : Prop where
  calls : u.calls = t.calls ++ made
  backing : (mappedMemory u).backing = (mappedMemory t).backing ↔ P
  balanced : (givenBack made).Perm (taken made) ↔ P

section RecoversIff

variable {P Q : Prop} {t u v : Traced π} {made more : List Call}

theorem Undone.recovers (h : Undone t u made) (hp : P) : RecoversIff P t u made where
  calls := h.calls
  backing := iff_of_true h.backing hp
  balanced := iff_of_true h.balanced hp

namespace RecoversIff

theorem congr (h : RecoversIff P t u made) (iff : P ↔ Q) : RecoversIff Q t u made where
  calls := h.calls
  backing := h.backing.trans iff
  balanced := h.balanced.trans iff

theorem after_undone (h : RecoversIff P u v more) (h' : Undone t u made) :
    RecoversIff P t v (made ++ more) where
  calls := by rw [h.calls, h'.calls, List.append_assoc]
  backing := by rw [← h'.backing, h.backing]
  balanced := by
    rw [givenBack_append, taken_append, ← h.balanced]
    have same : (givenBack made ++ givenBack more).Perm (taken made ++ givenBack more) :=
      h'.balanced.append_right _
    exact ⟨fun all => (List.perm_append_left_iff _).mp (same.symm.trans all),
      fun rest => same.trans (rest.append_left _)⟩

theorem before_undone (h : RecoversIff P t u made) (h' : Undone u v more) :
    RecoversIff P t v (made ++ more) where
  calls := by rw [h'.calls, h.calls, List.append_assoc]
  backing := by rw [h'.backing, h.backing]
  balanced := by
    rw [givenBack_append, taken_append, ← h.balanced]
    have same : (givenBack made ++ givenBack more).Perm (givenBack made ++ taken more) :=
      h'.balanced.append_left _
    exact ⟨fun all => (List.perm_append_right_iff _).mp (same.symm.trans all),
      fun rest => same.trans (rest.append_right _)⟩

end RecoversIff

end RecoversIff

namespace ExecutableImage

variable {image : ExecutableImage} {space : AddressSpace} {user : Bool} {t u : Traced π}

theorem touches_address {h : ProgramHeader} (hm : h ∈ image.memoryHeaders) :
    image.Touches (.containing h.address) :=
  ⟨h, hm, h.address, ⟨Nat.le_refl _, Nat.lt_add_of_pos_right (memorySize_pos hm)⟩, rfl⟩

theorem Mapped.eq_nil_iff {entries : List (Page × Frame)}
    (h : image.Mapped space user t u entries) : entries = [] ↔ image.memoryHeaders = [] := by
  constructor
  · rintro rfl
    refine List.eq_nil_iff_forall_not_mem.mpr fun header hm => ?_
    exact List.not_mem_nil ((h.touched _).mpr (touches_address hm))
  · intro hnone
    refine List.eq_nil_iff_forall_not_mem.mpr fun e he => ?_
    obtain ⟨header, hm, -⟩ := (h.touched e.1).mp (List.mem_map_of_mem he)
    rw [hnone] at hm
    exact List.not_mem_nil hm

/-- An image that was loaded stays mapped, if it takes any memory at all. -/
theorem load_ok_recovers {info : LoadedImage} (h : image.load space user t = (.ok info, u)) :
    ∃ made, RecoversIff (image.memoryHeaders = []) t u made := by
  obtain ⟨v, entries, mapped, -, -, rfl⟩ := load_ok h
  obtain ⟨made, fills⟩ :=
    fills_fillSegments image (image.memoryHeaders.map ProgramHeader.segment) v
  refine ⟨_, mapped.calls_eq fills, ?_, ?_⟩
  · rw [fills.backing, ← mapped.eq_nil_iff]
    constructor
    · intro same
      refine List.eq_nil_iff_forall_not_mem.mpr fun e he => ?_
      have hfree := mapped.grown.free e he
      rw [← same, mapped.grown.backed e he] at hfree
      cases hfree
    · rintro rfl
      funext s page
      exact mapped.grown.others s page fun hp => List.not_mem_nil hp.2
  · rw [taken_append, givenBack_append, taken_freshCalls, givenBack_freshCalls, fills.taken_eq,
      fills.givenBack_eq, List.append_nil, List.append_nil, ← mapped.eq_nil_iff]
    constructor
    · intro all
      exact List.map_eq_nil_iff.mp all.symm.eq_nil
    · rintro rfl
      exact .nil

end ExecutableImage

namespace ProcessTable

variable {image : ExecutableImage} {space : AddressSpace} {userland : Bool} {p q : Traced π}

theorem undone_enter (space : AddressSpace) (p : Traced π) :
    ∃ made, Undone p (enter space p) made := by
  rw [enter]
  split
  · exact ⟨[], .refl p⟩
  · exact ⟨_, undone_activate space p⟩

theorem undone_leave (previous space : AddressSpace) (p : Traced π) :
    ∃ made, Undone p (if previous = space then p else activate previous p) made := by
  split
  · exact ⟨[], .refl p⟩
  · exact ⟨_, undone_activate previous p⟩

theorem loadInto_error {e : ImageError} (h : loadInto image space userland p = (.error e, q)) :
    ∃ made, Undone p q made := by
  obtain ⟨v, hl, rfl⟩ := loadInto_error_stages h
  obtain ⟨entering, entered⟩ := undone_enter space p
  obtain ⟨made, failed, -⟩ := ExecutableImage.load_undone hl
  obtain ⟨leaving, left⟩ := undone_leave (activeSpace p) space v
  exact ⟨_, (entered.trans failed).trans left⟩

theorem loadInto_ok {info : LoadedImage} (h : loadInto image space userland p = (.ok info, q)) :
    ∃ made, RecoversIff (image.memoryHeaders = []) p q made := by
  obtain ⟨v, hl, rfl⟩ := loadInto_stages h
  obtain ⟨entering, entered⟩ := undone_enter space p
  obtain ⟨made, loaded⟩ := ExecutableImage.load_ok_recovers hl
  obtain ⟨leaving, left⟩ := undone_leave (activeSpace p) space v
  exact ⟨_, (loaded.after_undone entered).before_undone left⟩

/-- Why a process that does not run cannot be made ready. -/
theorem prepareForRun_refused {t u : ProcessTable} {h : ProcessHandle} {r : Process}
    {e : ProcessError} (live : t.get h = .ok r) (idle : r.state ≠ .running)
    (hp : t.prepareForRun h = (.error e, u)) :
    (e = .invalidState .exited ∧ r.state = .exited) ∨
      (e = .outOfMemory ∧ (r.kernelStack = none ∨ r.stackTop = none)) := by
  rw [prepareForRun, live] at hp
  dsimp only at hp
  split at hp
  · rename_i hstate
    cases hp
    have hexited := hstate.resolve_left idle
    exact .inl ⟨by rw [hexited], hexited⟩
  · split at hp
    · cases hp
    · rename_i hstack
      cases hp
      refine .inr ⟨rfl, ?_⟩
      rcases hk : r.kernelStack with - | stack
      · exact .inl rfl
      · rcases ht : r.stackTop with - | top
        · exact .inr rfl
        · exact absurd ht (hstack stack top hk)

/-- The image was loaded before the error came up. -/
def Late (e : ProcessError) : Prop := e = .invalidState .exited ∨ e = .outOfMemory

theorem late_of_refused {r : Process} {e : ProcessError}
    (h : (e = .invalidState .exited ∧ r.state = .exited) ∨
      (e = .outOfMemory ∧ (r.kernelStack = none ∨ r.stackTop = none))) : Late e :=
  h.imp And.left And.left

/-- A load that fails is undone, or it got as far as making the process ready. -/
theorem loadAndRun_recovers {t u : ProcessTable} {h : ProcessHandle} {e : ProcessError}
    (hl : t.loadAndRun h image p = (.error e, u, q)) :
    (¬ Late e ∧ ∃ made, Undone p q made) ∨
      ∃ r, t.get h = .ok r ∧ (∃ made, RecoversIff (image.memoryHeaders = []) p q made) ∧
        ((e = .invalidState .exited ∧ r.state = .exited) ∨
          (e = .outOfMemory ∧ (r.kernelStack = none ∨ r.stackTop = none))) := by
  rcases loadAndRun_error_stages hl with ⟨-, rfl, cause⟩ |
    ⟨r, live, idle, ⟨c, s, n, failed, rfl, -, rfl⟩ | ⟨info, loaded, refused⟩⟩
  · refine .inl ⟨?_, [], .refl _⟩
    rcases cause with rfl | rfl <;> simp [Late]
  · obtain ⟨made, undone⟩ := loadInto_error failed
    exact .inl ⟨by simp [Late], _, undone.trans (undone_note n s)⟩
  · -- The image is loaded already, and nothing takes it out again.
    exact .inr ⟨r, live, loadInto_ok loaded, prepareForRun_refused live idle refused⟩

end ProcessTable

namespace TableState

open ProcessTable

omit [LawfulMemory π] in
/-- Every process but the kernel's own knows where its stack starts. -/
theorem Reachable.stackTop_isSome {p : π} {s : TableState π} (reach : Reachable p s)
    {slot : Fin maxProcesses} {q : Process} (hq : s.table.slots slot = some q)
    (user : slot ≠ kernelSlot) : q.stackTop.isSome := by
  obtain ⟨history, run⟩ := reach
  have inv : Coherent s.table ∧
      ∀ {slot q}, s.table.slots slot = some q → slot ≠ kernelSlot → q.stackTop.isSome := by
    refine run.invariant (fun v => Coherent v.table ∧ ∀ {slot q}, v.table.slots slot = some q →
      slot ≠ kernelSlot → q.stackTop.isSome) ?_ ?_
    · exact ⟨coherent_new _, fun hq user => absurd (eq_kernel_of_slots_new hq).1 user⟩
    · rintro e - v ⟨coherent, tops⟩ step
      refine ⟨coherent_step coherent step, fun {slot r} hr user => ?_⟩
      rcases (effect_of_coherent coherent step).descends_or_added with
        ⟨hd, -⟩ | ⟨free, new, -, -, -, top, hv⟩
      · obtain ⟨q, hq, hrq⟩ := hd hr
        rw [hrq, Process.settle_stackTop]
        exact tops hq user
      · rw [hv] at hr
        rcases slots_added_cases hr with ⟨-, rfl⟩ | ⟨-, hr⟩
        · exact top
        · exact tops hr user
  exact inv.2 hq user

variable [LawfulPlatform π] {p : Traced π} {s u : TableState (Traced π)} {h : ProcessHandle}
  {image : ExecutableImage} {e : ProcessError}

omit [LawfulMemory π] [LawfulPlatform π] in
theorem perform_load (s : TableState π) (h : ProcessHandle) (image : ExecutableImage) :
    s.perform (.load h image) = (.loaded (s.table.loadAndRun h image s.machine).1,
      ⟨(s.table.loadAndRun h image s.machine).2.1, (s.table.loadAndRun h image s.machine).2.2⟩) :=
  rfl

/-- A load that fails leaves the space active that was, and it leaves all mappings as they were and
gives back all frames that it took exactly if it fails before the image is loaded or the image takes
no memory. It fails later only for a process that has exited or for the kernel's own. -/
theorem failed_load_recovers_iff (reach : Reachable p s)
    (failed : s.perform (.load h image) = (.loaded (.error e), u)) :
    activeSpace u.machine = activeSpace s.machine ∧
      (∃ made, RecoversIff (¬ Late e ∨ image.memoryHeaders = []) s.machine u.machine made) ∧
      (e = .invalidState .exited → ∃ q, s.table.get h = .ok q ∧ q.state = .exited) ∧
      (e = .outOfMemory → h.slot = kernelSlot) := by
  have coherent := reach.coherent
  rw [perform_load] at failed
  rcases hl : s.table.loadAndRun h image s.machine with ⟨result, t, m⟩
  rw [hl] at failed
  cases failed
  refine ⟨?_, ?_⟩
  · have view : activeSpace (s.table.loadAndRun h image s.machine).2.2 = activeSpace s.machine :=
      view_loadAndRun LawfulPlatform.steady_activeSpace (fun _ _ => activeSpace_loadInto)
        (by rw [hl]; simp)
    rw [hl] at view
    exact view
  · rcases loadAndRun_recovers hl with ⟨early, made, undone⟩ | ⟨r, live, ⟨made, kept⟩, cause⟩
    · exact ⟨⟨made, undone.recovers (.inl early)⟩, fun he => absurd (.inl he) early,
        fun he => absurd (.inr he) early⟩
    · have late := late_of_refused cause
      refine ⟨⟨made, kept.congr (or_iff_right (not_not_intro late)).symm⟩, ?_, ?_⟩
      · rintro rfl
        rcases cause with ⟨-, hexited⟩ | ⟨he, -⟩
        · exact ⟨r, live, hexited⟩
        · cases he
      · rintro rfl
        by_contra user
        have hr := (get_eq_ok.mp live).1
        have own := coherent.stack_owned hr user
        have top := reach.stackTop_isSome hr user
        rcases cause with ⟨he, -⟩ | ⟨-, none | none⟩
        · cases he
        · rw [none] at own
          cases own
        · rw [none] at top
          cases top

/-- The first process on a machine that has no second frame for it. -/
def jammedProcess : TableState (Traced (Faulty FlatMachine)) :=
  (start ExecutableImage.jammed).after [.create "init" 0x400000 false]

theorem reachable_jammedProcess : Reachable ExecutableImage.jammed jammedProcess :=
  ⟨_, run_record (start ExecutableImage.jammed) [.create "init" 0x400000 false] (by decide)⟩

theorem failed_load_recovers_iff_jammed :
    Reachable ExecutableImage.jammed jammedProcess ∧
      ∃ u, jammedProcess.perform (.load .first .straddling) =
          (.loaded (.error (.load .outOfMemory)), u) ∧
        (mappedMemory u.machine).backing = (mappedMemory jammedProcess.machine).backing ∧
        ∃ made, u.machine.calls = jammedProcess.machine.calls ++ made ∧
          (givenBack made).Perm (taken made) := by
  have failed : (jammedProcess.table.loadAndRun .first .straddling jammedProcess.machine).1 =
      .error (.load .outOfMemory) := by decide +kernel
  obtain ⟨u, load⟩ : ∃ u, jammedProcess.perform (.load .first .straddling) =
      (.loaded (.error (.load .outOfMemory)), u) := ⟨_, by rw [perform_load, failed]⟩
  obtain ⟨-, ⟨made, recovers⟩, -⟩ := failed_load_recovers_iff reachable_jammedProcess load
  have early : ¬ Late (.load .outOfMemory) ∨ ExecutableImage.memoryHeaders .straddling = [] :=
    .inl (by simp [Late])
  exact ⟨reachable_jammedProcess, u, load, recovers.backing.mpr early, made, recovers.calls,
    recovers.balanced.mpr early⟩

/-- The first process after it has exited. -/
def watchedExit : TableState (Traced FlatMachine) := (start ⟨{}, []⟩).after exitCalls

/-- What loading an image for it leads to. -/
def refusedImage : TableState (Traced FlatMachine) :=
  (watchedExit.perform (.load .first .straddling)).2

/-- A process that has exited is refused, and the image that was loaded for it stays. -/
theorem refused_image_stays :
    Run (start ⟨{}, []⟩) ((start ⟨{}, []⟩).record exitCalls) watchedExit ∧
      (watchedExit.table.loadAndRun .first .straddling watchedExit.machine).1 =
        .error (.invalidState .exited) ∧
      (mappedMemory refusedImage.machine).backing ≠ (mappedMemory watchedExit.machine).backing ∧
      taken (callsBetween watchedExit.machine refusedImage.machine) = [⟨0x1000⟩, ⟨0x1001⟩] ∧
      givenBack (callsBetween watchedExit.machine refusedImage.machine) = [] := by
  refine ⟨run_record _ exitCalls (by decide), by decide +kernel, fun same => ?_, by decide +kernel,
    by decide +kernel⟩
  have mapped : (mappedMemory refusedImage.machine).backing ⟨0x1000⟩ ⟨0x400⟩ ≠
      (mappedMemory watchedExit.machine).backing ⟨0x1000⟩ ⟨0x400⟩ := by decide +kernel
  exact mapped (congrFun (congrFun same _) _)

end TableState
end KernelCore
