import Mathlib.Algebra.Order.Group.Nat
import Mathlib.Data.Nat.ModEq

/-! # Counting in laps

A count that starts again at one after it has reached its quota. Somebody who is passed over
whenever the count has reached the quota, and served otherwise, waits for a number of turns that
his place in the queue and the count determine.
-/

namespace Laps

variable {quota : Nat}

/-- The place of a count in its lap. -/
def lap (quota count : Nat) : Nat := if count = 0 then 0 else (count - 1) % quota + 1

@[simp] theorem lap_zero (quota : Nat) : lap quota 0 = 0 := rfl

theorem lap_add_one (quota count : Nat) : lap quota (count + 1) = count % quota + 1 := rfl

theorem lap_le (hquota : 0 < quota) (count : Nat) : lap quota count ≤ quota := by
  cases count with
  | zero => exact Nat.zero_le _
  | succ count => exact Nat.mod_lt count hquota

theorem lap_succ (hquota : 0 < quota) (count : Nat) :
    lap quota (count + 1) = if lap quota count = quota then 1 else lap quota count + 1 := by
  cases count with
  | zero =>
      rw [lap_zero, if_neg hquota.ne, lap_add_one, Nat.zero_mod]
  | succ count =>
      have hlt : count % quota < quota := Nat.mod_lt _ hquota
      rw [lap_add_one, lap_add_one, ← Nat.mod_add_mod]
      by_cases hlast : count % quota + 1 = quota
      · rw [if_pos hlast, hlast, Nat.mod_self]
      · rw [if_neg hlast, Nat.mod_eq_of_lt (Nat.lt_of_le_of_ne hlt hlast)]

/-- A lap is complete at the multiples of the quota. -/
theorem lap_eq_iff (hquota : 0 < quota) (count : Nat) :
    lap quota count = quota ↔ 0 < count ∧ quota ∣ count := by
  cases count with
  | zero => exact iff_of_false hquota.ne fun hpositive => absurd hpositive.1 (Nat.lt_irrefl 0)
  | succ count =>
      have hlt : count % quota < quota := Nat.mod_lt _ hquota
      rw [lap_add_one, Nat.dvd_iff_mod_eq_zero, ← Nat.mod_add_mod]
      constructor
      · intro hlast
        rw [hlast]
        exact ⟨Nat.succ_pos _, Nat.mod_self _⟩
      · rintro ⟨-, hzero⟩
        by_contra hnot
        rw [Nat.mod_eq_of_lt (Nat.lt_of_le_of_ne hlt hnot)] at hzero
        cases hzero

/-- In how many turns somebody is served who has as many others before him as his position
says, where so many turns of the lap are used. -/
def turnsUntil (quota used position : Nat) : Nat := position + 1 + (position + used) / quota

theorem turnsUntil_passed (hquota : 0 < quota) (position : Nat) :
    turnsUntil quota 0 position + 1 = turnsUntil quota quota position := by
  simp only [turnsUntil, Nat.add_div_right _ hquota, Nat.add_zero]
  omega

theorem turnsUntil_served (quota used position : Nat) :
    turnsUntil quota (used + 1) position + 1 = turnsUntil quota used (position + 1) := by
  have hsame : position + (used + 1) = position + 1 + used := by omega
  simp only [turnsUntil, hsame]
  omega

/-- It is no worse where nobody else is there to be served when a lap is complete. -/
theorem turnsUntil_again (hquota : 0 < quota) (position : Nat) :
    turnsUntil quota 1 position + 1 ≤ turnsUntil quota quota (position + 1) := by
  simp only [turnsUntil, Nat.add_div_right _ hquota]
  omega

theorem turnsUntil_le (hquota : 0 < quota) {used : Nat} (hused : used ≤ quota)
    (position : Nat) : turnsUntil quota used position ≤ position + position / quota + 2 := by
  have hmono : (position + used) / quota ≤ (position + quota) / quota :=
    Nat.div_le_div_right (Nat.add_le_add_left hused position)
  rw [Nat.add_div_right _ hquota] at hmono
  unfold turnsUntil
  omega

end Laps
