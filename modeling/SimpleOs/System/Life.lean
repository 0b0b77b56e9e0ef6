import SimpleOs.Foundation.Runs
import SimpleOs.System.Os

/-! # The life of a process

What scheduling with a time quantum should make of one process: it waits, is dispatched,
executes its instructions one after the other, and its turn ends when its quantum or its
code does. A life is read off the marks of one process.
-/

namespace SimpleOs

/-- The stages of a life: how many instructions were executed, and in a turn also how many
were when it began. -/
inductive Life where
  | waiting (pc : Nat)
  | running (start pc : Nat)
  | finished (pc : Nat)
  deriving DecidableEq

namespace Life

def pc : Life → Nat
  | waiting pc => pc
  | running _ pc => pc
  | finished pc => pc

/-- The instructions that a turn is due: the quantum, or what is left of the code. -/
def due (timeSlot : Int) (size start : Nat) : Int := min timeSlot (size - start)

/-- How a life goes on with a mark. -/
def step (timeSlot : Int) (size : Nat) : Life → Mark → Option Life
  | waiting pc, .dispatch => some (running pc pc)
  | running start pc, .execute index =>
      if index = pc ∧ pc < size then some (running start (pc + 1)) else none
  | running start pc, .put =>
      if (pc : Int) - start = due timeSlot size start then some (waiting pc) else none
  | running start pc, .finish =>
      if pc = size ∧ (pc : Int) - start = due timeSlot size start then some (finished pc) else none
  | _, _ => none

end Life

/-- The index of the instruction that a mark executes. -/
def Mark.executed : Mark → Option Nat
  | .execute index => some index
  | _ => none

/-- The indices of the instructions executed, in order. -/
def executed (marks : List Mark) : List Nat := marks.filterMap Mark.executed

namespace Life

variable {timeSlot : Int} {size : Nat} {life next : Life} {mark : Mark}

theorem step_execute {start pc : Nat} (hpc : pc < size) :
    step timeSlot size (running start pc) (.execute pc) = some (running start (pc + 1)) :=
  if_pos ⟨rfl, hpc⟩

theorem step_put {start pc : Nat} (hdue : (pc : Int) - start = due timeSlot size start) :
    step timeSlot size (running start pc) .put = some (waiting pc) := if_pos hdue

theorem step_finish {start pc : Nat} (hpc : pc = size)
    (hdue : (pc : Int) - start = due timeSlot size start) :
    step timeSlot size (running start pc) .finish = some (finished pc) := if_pos ⟨hpc, hdue⟩

theorem pc_step (hstep : step timeSlot size life mark = some next) :
    List.range next.pc = List.range life.pc ++ mark.executed.toList := by
  unfold step at hstep
  split at hstep
  next =>
    cases hstep
    exact (List.append_nil _).symm
  next start pc index =>
    split at hstep
    next hindex =>
      cases hstep
      obtain ⟨rfl, -⟩ := hindex
      exact List.range_succ
    next => cases hstep
  next =>
    split at hstep
    next =>
      cases hstep
      exact (List.append_nil _).symm
    next => cases hstep
  next =>
    split at hstep
    next =>
      cases hstep
      exact (List.append_nil _).symm
    next => cases hstep
  next => cases hstep

/-- A life executes the instructions from the first one on, each once and in order. -/
theorem executed_eq_range {marks : List Mark}
    (hlife : Runs.run (step timeSlot size) (waiting 0) marks = some life) :
    executed marks = List.range life.pc := by
  induction marks using List.reverseRecOn generalizing life with
  | nil =>
      cases hlife
      rfl
  | append_singleton before mark ih =>
      obtain ⟨middle, hmiddle, hstep⟩ := Runs.run_snoc_eq_some hlife
      rw [pc_step hstep, ← ih hmiddle]
      unfold executed
      rw [List.filterMap_append]
      cases mark <;> rfl

/-- Within a turn the marks execute instructions and nothing else. -/
theorem run_within_turn {start pc : Nat} {marks : List Mark}
    (hlife : Runs.run (step timeSlot size) (running start pc) marks = some life)
    (hput : Mark.put ∉ marks) (hfinish : Mark.finish ∉ marks) :
    life = running start (pc + (executed marks).length) := by
  induction marks generalizing pc with
  | nil =>
      cases hlife
      rfl
  | cons mark rest ih =>
      rw [Runs.run_cons] at hlife
      obtain ⟨next, hstep, hrest⟩ := Option.bind_eq_some_iff.mp hlife
      cases mark with
      | dispatch => cases hstep
      | execute index =>
          simp only [step] at hstep
          split at hstep
          next =>
            cases hstep
            rw [ih hrest (fun h => hput (List.mem_cons_of_mem _ h))
              (fun h => hfinish (List.mem_cons_of_mem _ h))]
            change running start (pc + 1 + (executed rest).length) =
              running start (pc + ((executed rest).length + 1))
            rw [Nat.add_assoc, Nat.add_comm 1]
          next => cases hstep
      | put => exact absurd List.mem_cons_self hput
      | finish => exact absurd List.mem_cons_self hfinish

/-- Between a dispatch and the next end of a turn a life executes what is due. -/
theorem executed_in_turn {before middle after : List Mark} {last : Mark}
    (hlife : Runs.run (step timeSlot size) (waiting 0)
      (before ++ Mark.dispatch :: (middle ++ last :: after)) = some life)
    (hlast : last = .put ∨ last = .finish) (hput : Mark.put ∉ middle)
    (hfinish : Mark.finish ∉ middle) :
    ((executed middle).length : Int) = due timeSlot size (executed before).length := by
  rw [Runs.run_append] at hlife
  obtain ⟨first, hfirst, hlife⟩ := Option.bind_eq_some_iff.mp hlife
  rw [Runs.run_cons] at hlife
  obtain ⟨dispatched, hdispatch, hlife⟩ := Option.bind_eq_some_iff.mp hlife
  rw [Runs.run_append] at hlife
  obtain ⟨ending, hending, hlife⟩ := Option.bind_eq_some_iff.mp hlife
  rw [Runs.run_cons] at hlife
  obtain ⟨ended, hend, -⟩ := Option.bind_eq_some_iff.mp hlife
  have hbefore := executed_eq_range hfirst
  cases first with
  | waiting pc =>
      cases hdispatch
      rw [run_within_turn hending hput hfinish] at hend
      have hlength : (executed before).length = pc := by
        rw [hbefore]
        exact List.length_range
      rw [hlength]
      rcases hlast with rfl | rfl
      · simp only [step] at hend
        split at hend
        next hdue => omega
        next => cases hend
      · simp only [step] at hend
        split at hend
        next hdue => omega
        next => cases hend
  | running start pc => cases hdispatch
  | finished pc => cases hdispatch

end Life

end SimpleOs
