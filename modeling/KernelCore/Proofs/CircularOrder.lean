import KernelCore.RoundRobin
import Mathlib.Data.List.Nodup

/-!
# Circular order

The order in which the search for the next process goes through the slots, and what it finds: of the
slots that it looks for, the one behind the slot where it starts.
-/
namespace KernelCore

/-- The first hit behind an element of a list that is gone through in a circle is the one behind it
among the hits. -/
theorem find?_behind {α : Type} [DecidableEq α] {l : List α} {p : α → Bool} (nodup : l.Nodup)
    {i : Nat} (hi : i < l.length) (hp : p l[i] = true) :
    (l.drop (i + 1) ++ l.take (i + 1)).find? p =
      (l.filter p)[((l.filter p).idxOf l[i] + 1) % (l.filter p).length]? := by
  have hl : l = l.take i ++ l[i] :: l.drop (i + 1) := by
    rw [← List.drop_eq_getElem_cons hi, List.take_append_drop]
  have fresh : l[i] ∉ (l.take i).filter p := by
    intro hmem
    rw [hl] at nodup
    have apart := (List.nodup_append.mp nodup).2.2
    exact apart _ (List.mem_of_mem_filter hmem) _ List.mem_cons_self rfl
  have hfilter : l.filter p = (l.take i).filter p ++ l[i] :: (l.drop (i + 1)).filter p := by
    rw [← List.filter_cons_of_pos hp, ← List.filter_append, ← hl]
  have hidx : (l.filter p).idxOf l[i] = ((l.take i).filter p).length := by
    rw [hfilter, List.idxOf_append_of_notMem fresh, List.idxOf_cons_self, Nat.add_zero]
  have hcircle : (l.drop (i + 1) ++ l.take (i + 1)).filter p =
      (l.drop (i + 1)).filter p ++ ((l.take i).filter p ++ [l[i]]) := by
    rw [List.filter_append, List.take_succ_eq_append_getElem hi, List.filter_append,
      List.filter_singleton, hp]
    rfl
  rw [← List.head?_filter, hcircle, hidx, hfilter]
  generalize (l.take i).filter p = before
  -- Either something follows the element, or the circle goes on from the front.
  cases (l.drop (i + 1)).filter p with
  | nil => simp [List.head?_eq_getElem?]
  | cons b after =>
    have hlt : before.length + 1 < (before ++ l[i] :: b :: after).length := by simp
    rw [Nat.mod_eq_of_lt hlt]
    simp

namespace ProcessTable

theorem length_slotsAfter (slot : Nat) : (slotsAfter slot).length = maxProcesses := by
  rw [slotsAfter, List.length_map, List.length_range]

theorem val_slotsAfter {slot i : Nat} (hi : i < (slotsAfter slot).length) :
    (slotsAfter slot)[i].val = (slot + (i + 1)) % maxProcesses := by
  simp [slotsAfter]

theorem slotsAfter_eq (slot : Fin maxProcesses) :
    slotsAfter slot = (List.finRange maxProcesses).drop (slot.val + 1) ++
      (List.finRange maxProcesses).take (slot.val + 1) := by
  have hslot := slot.isLt
  apply List.ext_getElem
  · simp only [length_slotsAfter, List.length_append, List.length_drop, List.length_take,
      List.length_finRange]
    omega
  · intro i hi _
    rw [length_slotsAfter] at hi
    apply Fin.ext
    rw [val_slotsAfter, List.getElem_append]
    split
    · rename_i hfront
      rw [List.length_drop, List.length_finRange] at hfront
      have hlt : slot.val + (i + 1) < maxProcesses := by omega
      simp [Nat.mod_eq_of_lt hlt]
      omega
    · rename_i hback
      rw [List.length_drop, List.length_finRange] at hback
      have hge : maxProcesses ≤ slot.val + (i + 1) := by omega
      have hlt : slot.val + (i + 1) - maxProcesses < maxProcesses := by omega
      simp [Nat.mod_eq_sub_mod hge, Nat.mod_eq_of_lt hlt]
      omega

/-- The search finds the slot behind its start, among those that it looks for. -/
theorem next_of_runnable {t : ProcessTable} {slot : Fin maxProcesses}
    (h : t.runnableSlot slot = true) :
    t.nextRunnableAfter slot =
      ((List.finRange maxProcesses).filter t.runnableSlot)[
        (((List.finRange maxProcesses).filter t.runnableSlot).idxOf slot + 1) %
          ((List.finRange maxProcesses).filter t.runnableSlot).length]? := by
  have hi : slot.val < (List.finRange maxProcesses).length := by
    rw [List.length_finRange]
    exact slot.isLt
  have hslot : (List.finRange maxProcesses)[slot.val] = slot := by simp
  have hfind := find?_behind (List.nodup_finRange maxProcesses) hi (hslot.symm ▸ h)
  rw [hslot] at hfind
  rw [nextRunnableAfter, slotsAfter_eq]
  exact hfind

end ProcessTable
end KernelCore
