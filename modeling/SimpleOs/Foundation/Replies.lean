import Mathlib.Data.List.Basic

/-! # Components and their replies

A component answers one call after the other and changes its state. Code that can fail
attempts to answer, and the attempt on a sequence of calls ends at its first failure. It
never fails, and answers as an abstract component, when it does so call by call and stays
related to it.
-/

namespace Replies

variable {Error Call Reply Concrete Abstract : Type*}

/-- The replies of a component that always answers. -/
def replies (answer : Abstract → Call → Reply × Abstract) (state : Abstract) :
    List Call → List Reply
  | [] => []
  | call :: rest => (answer state call).1 :: replies answer (answer state call).2 rest

/-- The replies of a component that can fail. -/
def attempt (step : Concrete → Call → Except Error (Reply × Concrete)) (state : Concrete) :
    List Call → Except Error (List Reply)
  | [] => .ok []
  | call :: rest =>
      match step state call with
      | .error error => .error error
      | .ok (reply, next) => (attempt step next rest).map fun later => reply :: later

/-- On the calls that are admitted, the code answers as the abstract component and stays
related to it. -/
def Simulates (step : Concrete → Call → Except Error (Reply × Concrete))
    (answer : Abstract → Call → Reply × Abstract) (related : Concrete → Abstract → Prop)
    (admitted : Call → Prop) : Prop :=
  ∀ state abstract call, related state abstract → admitted call →
    ∃ next, step state call = .ok ((answer abstract call).1, next) ∧
      related next (answer abstract call).2

theorem Simulates.attempt_eq {step : Concrete → Call → Except Error (Reply × Concrete)}
    {answer : Abstract → Call → Reply × Abstract} {related : Concrete → Abstract → Prop}
    {admitted : Call → Prop} (hsimulates : Simulates step answer related admitted)
    {state : Concrete} {abstract : Abstract} (hrelated : related state abstract)
    {calls : List Call} (hcalls : ∀ call ∈ calls, admitted call) :
    attempt step state calls = .ok (replies answer abstract calls) := by
  induction calls generalizing state abstract with
  | nil => rfl
  | cons call rest ih =>
      have hrest : ∀ other ∈ rest, admitted other :=
        fun other hother => hcalls other (List.mem_cons_of_mem _ hother)
      obtain ⟨next, hstep, hnext⟩ :=
        hsimulates state abstract call hrelated (hcalls call List.mem_cons_self)
      unfold attempt
      rw [hstep]
      simp only [ih hnext hrest]
      rfl

/-- The state of a component that always answers, after some calls. -/
def after (answer : Abstract → Call → Reply × Abstract) (state : Abstract)
    (calls : List Call) : Abstract :=
  calls.foldl (fun state call => (answer state call).2) state

/-- Two components that always answer give the same replies, and stay related, if they do
so call by call. -/
theorem replies_eq_of_related {impl : Concrete → Call → Reply × Concrete}
    {answer : Abstract → Call → Reply × Abstract} {related : Concrete → Abstract → Prop}
    (hone : ∀ state abstract call, related state abstract →
      (impl state call).1 = (answer abstract call).1 ∧
        related (impl state call).2 (answer abstract call).2)
    {state : Concrete} {abstract : Abstract} (hrelated : related state abstract)
    (calls : List Call) :
    replies impl state calls = replies answer abstract calls ∧
      related (after impl state calls) (after answer abstract calls) := by
  induction calls generalizing state abstract with
  | nil => exact ⟨rfl, hrelated⟩
  | cons call rest ih =>
      obtain ⟨hreply, hnext⟩ := hone state abstract call hrelated
      obtain ⟨hreplies, hafter⟩ := ih hnext
      exact ⟨congrArg₂ List.cons hreply hreplies, hafter⟩

end Replies
