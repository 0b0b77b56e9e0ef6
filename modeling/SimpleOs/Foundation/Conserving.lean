import Mathlib.Algebra.BigOperators.Group.Finset.Piecewise
import Mathlib.Algebra.Order.BigOperators.Group.Finset
import Mathlib.Data.List.Perm.Subperm

/-! # Work-conserving schedules

A schedule is a list of units of work, each done for a job in a slot of time. Where no job
gets more than it needs and no slot is wasted, the slots that pass while a job still waits for
work are fewer than all the jobs need together, whatever the order in which they are served.
-/

namespace Conserving

variable {Unit : Type*} (slot job : Unit → Nat)

/-- The units of work done for a job. -/
def served (units : List Unit) (wanted : Nat) : Nat :=
  (units.filter fun unit => job unit = wanted).length

variable {slot job} {units : List Unit} {count : Nat}

/-- The work is what was done for each job. -/
theorem length_eq_sum_served (hjob : ∀ unit ∈ units, job unit < count) :
    units.length = ∑ wanted ∈ Finset.range count, served job units wanted := by
  induction units with
  | nil => exact (Finset.sum_const_zero).symm
  | cons unit rest ih =>
      have hhead := Finset.mem_range.mpr (hjob unit List.mem_cons_self)
      have hserved : ∀ wanted, served job (unit :: rest) wanted =
          served job rest wanted + if job unit = wanted then 1 else 0 := fun wanted => by
        unfold served
        rw [List.filter_cons]
        by_cases hsame : job unit = wanted <;> simp [hsame]
      simp only [hserved]
      rw [Finset.sum_add_distrib, Finset.sum_ite_eq, if_pos hhead, List.length_cons,
        ih fun other hother => hjob other (List.mem_cons_of_mem _ hother)]

/-- Slots in which work was done are no more than the units of work. -/
theorem le_length_of_used {first last : Nat}
    (hused : ∀ time, first ≤ time → time < last → ∃ unit ∈ units, slot unit = time) :
    last - first ≤ units.length := by
  have hsub : List.range' first (last - first) ⊆ units.map slot := by
    intro time htime
    obtain ⟨hfirst, hlast⟩ := List.mem_range'_1.mp htime
    obtain ⟨unit, hunit, hslot⟩ := hused time hfirst (by omega)
    exact List.mem_map.mpr ⟨unit, hunit, hslot⟩
  have hlength := ((List.nodup_range' 1).subperm hsub).length_le
  rwa [List.length_range', List.length_map] at hlength

variable (slot job) in
/-- While a job waits for work and every slot is used, the time stays below the sum of the
needs. -/
theorem lt_of_waiting {need : Nat → Nat} {first last : Nat}
    (hjob : ∀ unit ∈ units, job unit < count)
    (hneed : ∀ wanted < count, served job units wanted ≤ need wanted)
    (hwaiting : ∃ wanted < count, served job units wanted < need wanted)
    (hused : ∀ time, first ≤ time → time < last → ∃ unit ∈ units, slot unit = time) :
    last < first + ∑ wanted ∈ Finset.range count, need wanted := by
  obtain ⟨waiting, hwaiting, hlt⟩ := hwaiting
  have hsum : ∑ wanted ∈ Finset.range count, served job units wanted <
      ∑ wanted ∈ Finset.range count, need wanted :=
    Finset.sum_lt_sum (fun wanted hwanted => hneed wanted (Finset.mem_range.mp hwanted))
      ⟨waiting, Finset.mem_range.mpr hwaiting, hlt⟩
  have hlength := le_length_of_used hused
  rw [length_eq_sum_served hjob] at hlength
  omega

end Conserving
