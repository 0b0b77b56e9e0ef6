import Mathlib.Data.List.Basic

/-! # Traced computations

A computation that can fail, together with the accesses that it has made when it ends or
fails. Its outcome alone is the computation without the trace, and accesses of a sequence are
those of its parts, the second part running only after the first has completed.
-/

structure Traced (Access Error Value : Type) where
  accesses : List Access
  outcome : Except Error Value

namespace Traced

variable {Access Error First Second Value : Type}

/-- A computation without accesses. -/
def lift (outcome : Except Error Value) : Traced Access Error Value where
  accesses := []
  outcome := outcome

/-- A computation that makes one access. -/
def touch (access : Access) (outcome : Except Error Value) : Traced Access Error Value where
  accesses := [access]
  outcome := outcome

/-- One computation after the other. -/
def andThen (first : Traced Access Error First) (next : First → Traced Access Error Second) :
    Traced Access Error Second :=
  match first.outcome with
  | .error error => { accesses := first.accesses, outcome := .error error }
  | .ok value =>
      { accesses := first.accesses ++ (next value).accesses, outcome := (next value).outcome }

instance : Monad (Traced Access Error) where
  pure value := lift (.ok value)
  bind := andThen

/-! ## Outcomes -/

@[simp] theorem outcome_lift (outcome : Except Error Value) :
    (lift outcome : Traced Access Error Value).outcome = outcome := rfl

@[simp] theorem outcome_touch (access : Access) (outcome : Except Error Value) :
    (touch access outcome).outcome = outcome := rfl

@[simp] theorem outcome_pure (value : Value) :
    (pure value : Traced Access Error Value).outcome = .ok value := rfl

@[simp] theorem outcome_bind (first : Traced Access Error First)
    (next : First → Traced Access Error Second) :
    (first >>= next).outcome = first.outcome >>= fun value => (next value).outcome := by
  change (andThen first next).outcome = _
  unfold andThen
  cases first.outcome with
  | error error => rfl
  | ok value => rfl

theorem outcome_foldlM {Item : Type} (step : Value → Item → Traced Access Error Value)
    (items : List Item) (start : Value) :
    (items.foldlM step start).outcome =
      items.foldlM (fun value item => (step value item).outcome) start := by
  induction items generalizing start with
  | nil => rfl
  | cons item rest ih =>
      rw [List.foldlM_cons, List.foldlM_cons, outcome_bind]
      congr 1
      funext value
      exact ih value

/-! ## Accesses -/

@[simp] theorem accesses_lift (outcome : Except Error Value) :
    (lift outcome : Traced Access Error Value).accesses = [] := rfl

@[simp] theorem accesses_touch (access : Access) (outcome : Except Error Value) :
    (touch access outcome).accesses = [access] := rfl

@[simp] theorem accesses_pure (value : Value) :
    (pure value : Traced Access Error Value).accesses = [] := rfl

theorem mem_accesses_bind {first : Traced Access Error First}
    {next : First → Traced Access Error Second} {access : Access} :
    access ∈ (first >>= next).accesses ↔
      access ∈ first.accesses ∨
        ∃ value, first.outcome = .ok value ∧ access ∈ (next value).accesses := by
  change access ∈ (andThen first next).accesses ↔ _
  unfold andThen
  cases first.outcome with
  | error error => simp
  | ok value => simp [List.mem_append]

/-! ## Confined computations -/

/-- Every access is an allowed one. -/
def Confined (allowed : Access → Prop) (computation : Traced Access Error Value) : Prop :=
  ∀ access ∈ computation.accesses, allowed access

variable {allowed : Access → Prop}

theorem Confined.mono {wider : Access → Prop} (hwider : ∀ access, allowed access → wider access)
    {computation : Traced Access Error Value} (hconfined : computation.Confined allowed) :
    computation.Confined wider :=
  fun access haccess => hwider access (hconfined access haccess)

theorem confined_lift (outcome : Except Error Value) :
    (lift outcome).Confined allowed := by
  intro access haccess
  cases haccess

theorem confined_pure (value : Value) :
    (pure value : Traced Access Error Value).Confined allowed :=
  confined_lift (.ok value)

theorem confined_touch {access : Access} (hallowed : allowed access)
    (outcome : Except Error Value) : (touch access outcome).Confined allowed := by
  intro other hother
  rwa [List.mem_singleton.mp hother]

theorem Confined.bind {first : Traced Access Error First}
    {next : First → Traced Access Error Second} (hfirst : first.Confined allowed)
    (hnext : ∀ value, first.outcome = .ok value → (next value).Confined allowed) :
    (first >>= next).Confined allowed := by
  intro access haccess
  rcases mem_accesses_bind.mp haccess with hmem | ⟨value, hvalue, hmem⟩
  · exact hfirst access hmem
  · exact hnext value hvalue access hmem

/-- A loop is confined when an invariant of its values keeps every round confined. -/
theorem confined_foldlM {Item : Type} {step : Value → Item → Traced Access Error Value}
    {items : List Item} {start : Value} (invariant : Value → Prop) (hstart : invariant start)
    (hround : ∀ value, ∀ item ∈ items, invariant value → (step value item).Confined allowed)
    (hkeeps : ∀ value item next, invariant value → (step value item).outcome = .ok next →
      invariant next) :
    (items.foldlM step start).Confined allowed := by
  induction items generalizing start with
  | nil => exact confined_pure start
  | cons item rest ih =>
      rw [List.foldlM_cons]
      refine (hround start item List.mem_cons_self hstart).bind fun next hnext => ?_
      exact ih (hkeeps start item next hstart hnext)
        fun value other hother => hround value other (List.mem_cons_of_mem _ hother)

end Traced
