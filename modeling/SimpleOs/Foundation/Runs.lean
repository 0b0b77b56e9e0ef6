import Mathlib.Data.List.Basic
import Mathlib.Data.List.Infix

/-! # Runs of partial step functions

A system is a partial function from a state and an event to the next state. An
event that is not enabled, or whose execution has no defined result, has no next
state, and a run stops there. Runs are indexed by their list of events, so a
theorem over all schedules is a theorem over all lists.
-/

namespace Runs

variable {State Event : Type*} (step : State → Event → Option State)

/-- The state after a whole schedule, when every one of its steps completes. -/
def run (state : State) : List Event → Option State
  | [] => some state
  | event :: rest => (step state event).bind fun next => run next rest

/-- The states a schedule passes through, up to the first step that does not
complete. The initial state is one of them. -/
def visited (state : State) : List Event → List State
  | [] => [state]
  | event :: rest =>
      state :: match step state event with
        | none => []
        | some next => visited next rest

/-- The completed steps of a schedule, each with the state it started from. -/
def taken (state : State) : List Event → List (State × Event)
  | [] => []
  | event :: rest =>
      match step state event with
      | none => []
      | some next => (state, event) :: taken next rest

/-- A step whose code can fail completes exactly when it returns a value. -/
theorem toOption_eq_some_iff {Failure Value : Type*} {outcome : Except Failure Value}
    {value : Value} : outcome.toOption = some value ↔ outcome = .ok value := by
  cases outcome with
  | error failure => simp [Except.toOption]
  | ok found => simp [Except.toOption]

variable {step}

@[simp] theorem run_nil (state : State) : run step state [] = some state := rfl

theorem run_cons (state : State) (event : Event) (rest : List Event) :
    run step state (event :: rest) = (step state event).bind (run step · rest) := rfl

theorem run_append (state : State) (first second : List Event) :
    run step state (first ++ second) =
      (run step state first).bind fun middle => run step middle second := by
  induction first generalizing state with
  | nil => rfl
  | cons event rest ih =>
      rw [List.cons_append, run_cons, run_cons, Option.bind_assoc]
      congr 1
      funext next
      exact ih next

/-- A completed schedule ending in one more event splits at its last state. -/
theorem run_snoc_eq_some {state final : State} {events : List Event} {event : Event}
    (hrun : run step state (events ++ [event]) = some final) :
    ∃ middle, run step state events = some middle ∧ step middle event = some final := by
  rw [run_append] at hrun
  obtain ⟨middle, hmiddle, hlast⟩ := Option.bind_eq_some_iff.mp hrun
  rw [run_cons] at hlast
  obtain ⟨next, hstep, hnext⟩ := Option.bind_eq_some_iff.mp hlast
  rw [run_nil, Option.some.injEq] at hnext
  exact ⟨middle, hmiddle, hnext ▸ hstep⟩

theorem run_snoc {state middle final : State} {events : List Event} {event : Event}
    (hrun : run step state events = some middle) (hstep : step middle event = some final) :
    run step state (events ++ [event]) = some final := by
  rw [run_append, hrun, Option.bind_some, run_cons, hstep]
  rfl

/-- A state is visited exactly when some prefix of the schedule ends in it. -/
theorem mem_visited_iff {state target : State} {events : List Event} :
    target ∈ visited step state events ↔
      ∃ done, done <+: events ∧ run step state done = some target := by
  induction events generalizing state with
  | nil =>
      simp only [visited, List.mem_singleton, List.prefix_nil, exists_eq_left, run_nil,
        Option.some.injEq]
      exact eq_comm
  | cons event rest ih =>
      constructor
      · intro hmem
        rcases List.mem_cons.mp hmem with rfl | htail
        · exact ⟨[], List.nil_prefix, rfl⟩
        · cases hstep : step state event with
          | none => simp [hstep] at htail
          | some next =>
              rw [hstep] at htail
              obtain ⟨done, hprefix, hrun⟩ := ih.mp htail
              exact ⟨event :: done, List.prefix_cons_inj event |>.mpr hprefix, by
                rw [run_cons, hstep]; exact hrun⟩
      · rintro ⟨done, hprefix, hrun⟩
        cases done with
        | nil =>
            rw [run_nil, Option.some.injEq] at hrun
            exact hrun ▸ List.mem_cons_self
        | cons head tail =>
            obtain ⟨rfl, htail⟩ := List.cons_prefix_cons.mp hprefix
            rw [run_cons] at hrun
            obtain ⟨next, hstep, hnext⟩ := Option.bind_eq_some_iff.mp hrun
            refine List.mem_cons_of_mem _ ?_
            rw [hstep]
            exact ih.mpr ⟨tail, htail, hnext⟩

/-- A predicate preserved by every allowed step holds in every visited state. -/
theorem visited_invariant (invariant : State → Prop) (allowed : Event → Prop)
    (hstep : ∀ state event next, allowed event → invariant state →
      step state event = some next → invariant next)
    {state : State} {events : List Event} (hallowed : ∀ event ∈ events, allowed event)
    (hstate : invariant state) :
    ∀ target ∈ visited step state events, invariant target := by
  induction events generalizing state with
  | nil =>
      intro target htarget
      rw [List.mem_singleton.mp htarget]
      exact hstate
  | cons event rest ih =>
      intro target htarget
      rcases List.mem_cons.mp htarget with rfl | htail
      · exact hstate
      · cases hnext : step state event with
        | none => simp [hnext] at htail
        | some next =>
            rw [hnext] at htail
            exact ih (fun later hlater => hallowed later (List.mem_cons_of_mem _ hlater))
              (hstep state event next (hallowed event List.mem_cons_self) hstate hnext)
              target htail

/-- The same rule for the final state of a completed schedule. -/
theorem run_invariant (invariant : State → Prop) (allowed : Event → Prop)
    (hstep : ∀ state event next, allowed event → invariant state →
      step state event = some next → invariant next)
    {state final : State} {events : List Event} (hallowed : ∀ event ∈ events, allowed event)
    (hstate : invariant state) (hrun : run step state events = some final) :
    invariant final :=
  visited_invariant invariant allowed hstep hallowed hstate final
    (mem_visited_iff.mpr ⟨events, List.prefix_rfl, hrun⟩)

/-- The first step of a schedule, or one taken later. -/
theorem mem_taken_cons {state : State} {event : Event} {rest : List Event}
    {move : State × Event} (hmove : move ∈ taken step state (event :: rest)) :
    move = (state, event) ∨ ∃ next, step state event = some next ∧ move ∈ taken step next rest := by
  cases hnext : step state event with
  | none => simp [taken, hnext] at hmove
  | some next =>
      simp only [taken, hnext, List.mem_cons] at hmove
      exact hmove.imp_right fun hlater => ⟨next, rfl, hlater⟩

/-- A predicate preserved by the steps that meet a condition holds wherever a run takes a
step, when all of its steps meet the condition. -/
theorem taken_invariant (invariant : State → Prop) (condition : State → Event → Prop)
    (hstep : ∀ state event next, condition state event → invariant state →
      step state event = some next → invariant next)
    {state : State} {events : List Event} (hstate : invariant state)
    (hcondition : ∀ move ∈ taken step state events, condition move.1 move.2) :
    ∀ move ∈ taken step state events, invariant move.1 := by
  induction events generalizing state with
  | nil => exact fun move hmove => by cases hmove
  | cons event rest ih =>
      cases hnext : step state event with
      | none =>
          intro move hmove
          simp [taken, hnext] at hmove
      | some next =>
          simp only [taken, hnext, List.mem_cons, forall_eq_or_imp] at hcondition ⊢
          exact ⟨hstate, ih (hstep state event next hcondition.1 hstate hnext) hcondition.2⟩

/-- Exact conditions lift from steps to runs. If, from a state with the property,
one step keeps the property exactly when it meets the condition, then a run keeps
the property throughout exactly when all of its steps meet the condition. -/
theorem visited_iff_taken (invariant property : State → Prop) (allowed : Event → Prop)
    (condition : State → Event → Prop)
    (hinvariant : ∀ state event next, allowed event → invariant state →
      step state event = some next → invariant next)
    (hexact : ∀ state event next, allowed event → invariant state → property state →
      step state event = some next → (property next ↔ condition state event))
    {state : State} {events : List Event} (hallowed : ∀ event ∈ events, allowed event)
    (hstate : invariant state) (hproperty : property state) :
    (∀ target ∈ visited step state events, property target) ↔
      ∀ move ∈ taken step state events, condition move.1 move.2 := by
  induction events generalizing state with
  | nil => simpa [visited, taken] using hproperty
  | cons event rest ih =>
      have hevent := hallowed event List.mem_cons_self
      have hrest : ∀ later ∈ rest, allowed later :=
        fun later hlater => hallowed later (List.mem_cons_of_mem _ hlater)
      cases hnext : step state event with
      | none => simpa [visited, taken, hnext] using hproperty
      | some next =>
          have hiff := hexact state event next hevent hstate hproperty hnext
          have hinv := hinvariant state event next hevent hstate hnext
          simp only [visited, taken, hnext, List.mem_cons, forall_eq_or_imp]
          constructor
          · rintro ⟨-, htail⟩
            have hnextProperty : property next :=
              htail next (mem_visited_iff.mpr ⟨[], List.nil_prefix, rfl⟩)
            exact ⟨hiff.mp hnextProperty, (ih hrest hinv hnextProperty).mp htail⟩
          · rintro ⟨hhead, htail⟩
            exact ⟨hproperty, (ih hrest hinv (hiff.mpr hhead)).mpr htail⟩

/-- Where every allowed step completes, the steps taken are all the events. -/
theorem taken_events (invariant : State → Prop) (allowed : Event → Prop)
    (hstep : ∀ state event, allowed event → invariant state →
      ∃ next, step state event = some next ∧ invariant next)
    {state : State} {events : List Event} (hallowed : ∀ event ∈ events, allowed event)
    (hstate : invariant state) : (taken step state events).map Prod.snd = events := by
  induction events generalizing state with
  | nil => rfl
  | cons event rest ih =>
      obtain ⟨next, hnext, hinvariant⟩ :=
        hstep state event (hallowed event List.mem_cons_self) hstate
      simp only [taken, hnext, List.map_cons]
      rw [ih (fun later hlater => hallowed later (List.mem_cons_of_mem _ hlater)) hinvariant]

end Runs
