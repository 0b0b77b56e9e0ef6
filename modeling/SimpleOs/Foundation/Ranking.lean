import SimpleOs.Foundation.Runs

/-! # Ranked runs

A rank bounds a run whose steps all lower it. In a system with a clock a step may also raise
the rank, by a price that the clock pays for: then the clock bounds the length of a run, and a
long run makes the clock advance. Where every state can take a step, runs of any length exist.
-/

namespace Ranking

variable {State Event : Type*} {step : State → Event → Option State}

/-- Every step from a state with the invariant keeps it and lowers the rank, up to the price
of what the clock advances. -/
structure Paid (step : State → Event → Option State) (invariant : State → Prop)
    (rank clock : State → Nat) (price : Nat) : Prop where
  keeps : ∀ state event next, invariant state → step state event = some next → invariant next
  pays : ∀ state event next, invariant state → step state event = some next →
    rank next + 1 + price * clock state ≤ rank state + price * clock next

variable {invariant : State → Prop} {rank clock : State → Nat} {price : Nat}

/-- The clock pays for all steps of a run that the rank does not pay for. -/
theorem Paid.length_add_le (hpaid : Paid step invariant rank clock price)
    {events : List Event} {state final : State} (hstate : invariant state)
    (hrun : Runs.run step state events = some final) :
    events.length + rank final + price * clock state ≤ rank state + price * clock final := by
  induction events generalizing state with
  | nil =>
      cases hrun
      exact (Nat.zero_add _).symm ▸ Nat.le_refl _
  | cons event rest ih =>
      rw [Runs.run_cons] at hrun
      obtain ⟨next, hnext, hrest⟩ := Option.bind_eq_some_iff.mp hrun
      have hhead := hpaid.pays state event next hstate hnext
      have htail := ih (hpaid.keeps state event next hstate hnext) hrest
      rw [List.length_cons]
      omega

/-- A run that is longer than what the rank and some ticks of the clock pay for sees more
ticks than these. -/
theorem Paid.clock_lt (hpaid : Paid step invariant rank clock price) {events : List Event}
    {state final : State} (hstate : invariant state)
    (hrun : Runs.run step state events = some final) {ticks : Nat}
    (hlong : rank state + price * ticks < events.length) : clock state + ticks < clock final := by
  have hlength := hpaid.length_add_le hstate hrun
  by_contra hfew
  have hcost := Nat.mul_le_mul_left price (Nat.not_lt.mp hfew)
  rw [Nat.mul_add] at hcost
  omega

/-- Where no state with the invariant is stuck, runs go on as long as one likes. -/
theorem exists_run_of_length
    (hkeeps : ∀ state event next, invariant state → step state event = some next →
      invariant next)
    (hmoves : ∀ state, invariant state → ∃ event next, step state event = some next)
    {state : State} (hstate : invariant state) (length : Nat) :
    ∃ events final, events.length = length ∧ Runs.run step state events = some final := by
  induction length generalizing state with
  | zero => exact ⟨[], state, rfl, rfl⟩
  | succ length ih =>
      obtain ⟨event, next, hnext⟩ := hmoves state hstate
      obtain ⟨events, final, hlength, hrun⟩ := ih (hkeeps state event next hstate hnext)
      refine ⟨event :: events, final, congrArg Nat.succ hlength, ?_⟩
      rw [Runs.run_cons, hnext]
      exact hrun

end Ranking
