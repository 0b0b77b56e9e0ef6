import Mathlib.Data.Fin.Tuple.Basic
import Mathlib.Order.Fin.Basic
import SimpleOs.Machine.Basic
import SimpleOs.Sched.Queue

/-! # The multi-level queue scheduler

`sched.c`, built with `MLQ_SCHED`: one ready queue per priority level, and a
selection that keeps its level and the number of slots spent there in two static
variables. The `prio` field of a process is written once, before it is added, so it
is a function of the process here.
-/

namespace SimpleOs

/-- `MAX_PRIO` -/
def maxPrio : Nat := 140

variable {Proc : Type}

/-- The static variables of `sched.c`, those of `get_mlq_proc` included. -/
structure Sched (Proc : Type) where
  mlqReadyQueue : Fin maxPrio → ProcQueue Proc
  slot : Fin maxPrio → Int
  currentPrio : Fin maxPrio
  usedSlot : Int
  runningList : ProcQueue Proc

/-- The calls of the loader and the CPUs. -/
inductive SchedCall (Proc : Type) where
  | addProc (proc : Proc)
  | getProc
  | putProc (proc : Proc)
  deriving DecidableEq

namespace Sched

/-- The state `init_scheduler` leaves, from the zeroed statics the program starts with. -/
def initScheduler : Sched Proc where
  mlqReadyQueue _ := ProcQueue.zero
  slot i := maxPrio - i
  currentPrio := ⟨0, by decide⟩
  usedSlot := 0
  runningList := ProcQueue.zero

/-- The first loop of `get_mlq_proc`: the lowest index with a non-empty queue. -/
def highestPrio (s : Sched Proc) : Option (Fin maxPrio) :=
  Fin.find? fun i => !(s.mlqReadyQueue i).empty

/-- `(currentPrio + i) % MAX_PRIO`, for the loop counter `i = offset + 1`. -/
def nextPrio (currentPrio offset : Fin maxPrio) : Fin maxPrio :=
  ⟨(currentPrio + (offset + 1)) % maxPrio, Nat.mod_lt _ (by decide)⟩

/-- The second loop of `get_mlq_proc`: the next non-empty level in cyclic order. -/
def findNext (s : Sched Proc) (currentPrio : Fin maxPrio) : Option (Fin maxPrio) :=
  (Fin.find? fun offset => !(s.mlqReadyQueue (nextPrio currentPrio offset)).empty).map
    (nextPrio currentPrio)

/-- `proc = dequeue(&mlq_ready_queue[currentPrio])`, with the two statics it is
followed by. -/
def dequeueAt (s : Sched Proc) (currentPrio : Fin maxPrio) (usedSlot : Int) :
    Option Proc × Sched Proc :=
  ((s.mlqReadyQueue currentPrio).dequeue.1,
    { s with
      mlqReadyQueue := Function.update s.mlqReadyQueue currentPrio
        (s.mlqReadyQueue currentPrio).dequeue.2
      currentPrio := currentPrio
      usedSlot := usedSlot })

/-- The preemption test of `get_mlq_proc`: an empty current level, or a non-empty
level above it, moves the selection to the highest level with no slot used. -/
def preempt (s : Sched Proc) (highest : Fin maxPrio) : Sched Proc :=
  if (s.mlqReadyQueue s.currentPrio).empty || decide (highest < s.currentPrio) then
    { s with currentPrio := highest, usedSlot := 0 }
  else s

def getMlqProc (s : Sched Proc) : Option Proc × Sched Proc :=
  match s.highestPrio with
  | none => (none, s)
  | some highest =>
      let s := s.preempt highest
      if s.usedSlot < s.slot s.currentPrio ∧ (s.mlqReadyQueue s.currentPrio).empty = false then
        s.dequeueAt s.currentPrio (s.usedSlot + 1)
      else
        match s.findNext s.currentPrio with
        | some next => s.dequeueAt next 1
        | none => (none, { s with usedSlot := 0 })

/-- `enqueue(&mlq_ready_queue[proc->prio], proc)` -/
def enqueueReady (prio : Proc → Nat) (s : Sched Proc) (proc : Proc) :
    Except Fault (Sched Proc) :=
  if h : prio proc < maxPrio then
    .ok { s with
      mlqReadyQueue := Function.update s.mlqReadyQueue ⟨prio proc, h⟩
        ((s.mlqReadyQueue ⟨prio proc, h⟩).enqueue proc) }
  else .error .outOfBounds

/-- `enqueue(&running_list, proc)` -/
def enqueueRunning (s : Sched Proc) (proc : Proc) : Sched Proc :=
  { s with runningList := s.runningList.enqueue proc }

def putMlqProc (prio : Proc → Nat) (s : Sched Proc) (proc : Proc) : Except Fault (Sched Proc) :=
  enqueueReady prio s proc

def addMlqProc (prio : Proc → Nat) (s : Sched Proc) (proc : Proc) : Except Fault (Sched Proc) :=
  enqueueReady prio s proc

def getProc (s : Sched Proc) : Option Proc × Sched Proc := s.getMlqProc

def putProc (prio : Proc → Nat) (s : Sched Proc) (proc : Proc) : Except Fault (Sched Proc) :=
  putMlqProc prio (s.enqueueRunning proc) proc

def addProc (prio : Proc → Nat) (s : Sched Proc) (proc : Proc) : Except Fault (Sched Proc) :=
  addMlqProc prio (s.enqueueRunning proc) proc

/-- The processes waiting at a level, front first. -/
def ready (s : Sched Proc) (level : Fin maxPrio) : List Proc := (s.mlqReadyQueue level).items

@[simp] theorem empty_eq_true_iff {s : Sched Proc} {level : Fin maxPrio} :
    (s.mlqReadyQueue level).empty = true ↔ s.ready level = [] :=
  ProcQueue.empty_iff _

@[simp] theorem empty_eq_false_iff {s : Sched Proc} {level : Fin maxPrio} :
    (s.mlqReadyQueue level).empty = false ↔ s.ready level ≠ [] :=
  ProcQueue.empty_eq_false_iff _

@[simp] theorem ready_initScheduler (level : Fin maxPrio) :
    (initScheduler : Sched Proc).ready level = [] := ProcQueue.items_zero

theorem ready_length_le (s : Sched Proc) (level : Fin maxPrio) :
    (s.ready level).length ≤ maxQueueSize := (s.mlqReadyQueue level).items_length_le

theorem ready_dequeueAt (s : Sched Proc) (level other : Fin maxPrio) (usedSlot : Int) :
    (s.dequeueAt level usedSlot).2.ready other =
      if other = level then (s.ready level).tail else s.ready other := by
  unfold ready dequeueAt
  by_cases hsame : other = level
  · subst hsame
    simp only [if_true, Function.update_self, ProcQueue.items_dequeue]
  · simp only [hsame, if_false, ne_eq, not_false_eq_true, Function.update_of_ne]

/-- The one way in which an insertion changes the ready queues: the process goes to the
back of its own level, unless that level is full. -/
def Inserted (prio : Proc → Nat) (s : Sched Proc) (proc : Proc) (next : Sched Proc) : Prop :=
  ∃ hprio : prio proc < maxPrio, ∀ level, next.ready level =
    if level = ⟨prio proc, hprio⟩ ∧ (s.ready ⟨prio proc, hprio⟩).length < maxQueueSize then
      s.ready level ++ [proc]
    else s.ready level

theorem ready_enqueueReady {prio : Proc → Nat} {s next : Sched Proc} {proc : Proc}
    (hput : enqueueReady prio s proc = .ok next) : Inserted prio s proc next := by
  unfold enqueueReady at hput
  split at hput
  next hprio =>
    cases hput
    refine ⟨hprio, fun level => ?_⟩
    unfold ready
    by_cases hsame : level = ⟨prio proc, hprio⟩
    · subst hsame
      simp only [Function.update_self, ProcQueue.items_enqueue, true_and]
    · simp only [Function.update_of_ne hsame, hsame, false_and, if_false]
  next => cases hput

/-- An insertion touches neither the quotas nor the state of the selection. -/
theorem statics_enqueueReady {prio : Proc → Nat} {s next : Sched Proc} {proc : Proc}
    (hput : enqueueReady prio s proc = .ok next) :
    next.slot = s.slot ∧ next.currentPrio = s.currentPrio ∧ next.usedSlot = s.usedSlot := by
  unfold enqueueReady at hput
  split at hput
  next => cases hput; exact ⟨rfl, rfl, rfl⟩
  next => cases hput

theorem runningList_enqueueReady {prio : Proc → Nat} {s next : Sched Proc} {proc : Proc}
    (hput : enqueueReady prio s proc = .ok next) : next.runningList = s.runningList := by
  unfold enqueueReady at hput
  split at hput
  next => cases hput; rfl
  next => cases hput

theorem exists_enqueueReady {prio : Proc → Nat} {proc : Proc} (hprio : prio proc < maxPrio)
    (s : Sched Proc) : ∃ next, enqueueReady prio s proc = .ok next := by
  unfold enqueueReady
  rw [dif_pos hprio]
  exact ⟨_, rfl⟩

/-- Putting a process back and adding a new one change the ready queues alike. -/
theorem ready_putProc {prio : Proc → Nat} {s next : Sched Proc} {proc : Proc}
    (hput : putProc prio s proc = .ok next) : Inserted prio s proc next :=
  ready_enqueueReady (s := s.enqueueRunning proc) hput

theorem exists_putProc {prio : Proc → Nat} {proc : Proc} (hprio : prio proc < maxPrio)
    (s : Sched Proc) : ∃ next, putProc prio s proc = .ok next :=
  exists_enqueueReady hprio (s.enqueueRunning proc)

/-! ## The two search loops -/

theorem highestPrio_eq_none_iff {s : Sched Proc} :
    s.highestPrio = none ↔ ∀ i, s.ready i = [] := by
  rw [highestPrio, Fin.find?_eq_none_iff]
  simp only [Bool.not_eq_false', empty_eq_true_iff]

theorem highestPrio_eq_some_iff {s : Sched Proc} {highest : Fin maxPrio} :
    s.highestPrio = some highest ↔ s.ready highest ≠ [] ∧
      ∀ i, i < highest → s.ready i = [] := by
  rw [highestPrio, Fin.find?_eq_some_iff]
  simp only [Bool.not_eq_true', Bool.not_eq_false', empty_eq_true_iff, empty_eq_false_iff]

/-- The cyclic search visits every level, its own one last. -/
theorem exists_nextPrio (currentPrio level : Fin maxPrio) :
    ∃ offset : Fin maxPrio, nextPrio currentPrio offset = level ∧
      (level ≠ currentPrio → offset.val < maxPrio - 1) := by
  have hcurrent : currentPrio.val < 140 := currentPrio.isLt
  have hlevel : level.val < 140 := level.isLt
  refine ⟨⟨(level + (maxPrio - 1) - currentPrio) % maxPrio, Nat.mod_lt _ (by decide)⟩, ?_, ?_⟩
  · have hval : (currentPrio.val + ((level.val + 139 - currentPrio.val) % 140 + 1)) % 140 =
        level.val := by omega
    exact Fin.ext hval
  · intro hne
    have hval : level.val ≠ currentPrio.val := fun heq => hne (Fin.ext heq)
    have hlt : (level.val + 139 - currentPrio.val) % 140 < 139 := by omega
    exact hlt

theorem nextPrio_eq_self {currentPrio offset : Fin maxPrio}
    (hself : nextPrio currentPrio offset = currentPrio) : offset.val = maxPrio - 1 := by
  have hcurrent : currentPrio.val < 140 := currentPrio.isLt
  have hoffset : offset.val < 140 := offset.isLt
  have hval : (currentPrio.val + (offset.val + 1)) % 140 = currentPrio.val :=
    congrArg Fin.val hself
  have hlast : offset.val = 139 := by omega
  exact hlast

/-- While some level is non-empty the cyclic search finds one, and it comes back to
the level it started from only when all others are empty. -/
theorem exists_findNext {s : Sched Proc} {level : Fin maxPrio} (currentPrio : Fin maxPrio)
    (hlevel : s.ready level ≠ []) :
    ∃ next, s.findNext currentPrio = some next ∧ s.ready next ≠ [] ∧
      (next = currentPrio → ∀ other, other ≠ currentPrio → s.ready other = []) := by
  obtain ⟨offset, hoffset, -⟩ := exists_nextPrio currentPrio level
  cases hfind : (Fin.find? fun offset =>
      !(s.mlqReadyQueue (nextPrio currentPrio offset)).empty) with
  | none =>
      have hempty := Fin.find?_eq_none_iff.mp hfind offset
      rw [hoffset, Bool.not_eq_false', empty_eq_true_iff] at hempty
      exact absurd hempty hlevel
  | some found =>
      obtain ⟨hnonempty, hbefore⟩ := Fin.find?_eq_some_iff.mp hfind
      rw [Bool.not_eq_true', empty_eq_false_iff] at hnonempty
      refine ⟨nextPrio currentPrio found, by rw [findNext, hfind]; rfl, hnonempty, ?_⟩
      intro hself other hother
      -- its own level comes last, so the search has passed all others
      obtain ⟨place, hplace, hlt⟩ := exists_nextPrio currentPrio other
      have hfound := nextPrio_eq_self hself
      have hempty := hbefore place (by rw [Fin.lt_def, hfound]; exact hlt hother)
      rw [hplace, Bool.not_eq_false', empty_eq_true_iff] at hempty
      exact hempty

/-- The searches read which levels are empty, and nothing else. -/
theorem empty_congr {s other : Sched Proc}
    (hsame : ∀ level, s.ready level = [] ↔ other.ready level = []) (level : Fin maxPrio) :
    (s.mlqReadyQueue level).empty = (other.mlqReadyQueue level).empty := by
  rw [Bool.eq_iff_iff, empty_eq_true_iff, empty_eq_true_iff]
  exact hsame level

theorem highestPrio_congr {s other : Sched Proc}
    (hsame : ∀ level, s.ready level = [] ↔ other.ready level = []) :
    s.highestPrio = other.highestPrio := by
  unfold highestPrio
  simp only [empty_congr hsame]

theorem findNext_congr {s other : Sched Proc}
    (hsame : ∀ level, s.ready level = [] ↔ other.ready level = []) (currentPrio : Fin maxPrio) :
    s.findNext currentPrio = other.findNext currentPrio := by
  unfold findNext
  simp only [empty_congr hsame]

/-! ## What one selection does -/

/-- The slots already spent on the highest level when a selection starts there. -/
def spent (s : Sched Proc) (highest : Fin maxPrio) : Int :=
  if s.currentPrio = highest then s.usedSlot else 0

theorem preempt_eq {s : Sched Proc} {highest : Fin maxPrio}
    (hhighest : s.highestPrio = some highest) :
    s.preempt highest = { s with currentPrio := highest, usedSlot := s.spent highest } := by
  obtain ⟨hnonempty, hbelow⟩ := highestPrio_eq_some_iff.mp hhighest
  unfold preempt spent
  by_cases hsame : s.currentPrio = highest
  · subst hsame
    have hstay : ¬ ((s.mlqReadyQueue s.currentPrio).empty ||
        decide (s.currentPrio < s.currentPrio)) = true := by
      simp [hnonempty]
    rw [if_neg hstay, if_pos rfl]
  -- a current level above the highest non-empty one is empty, and one below it is preempted
  · have hmove : ((s.mlqReadyQueue s.currentPrio).empty ||
        decide (highest < s.currentPrio)) = true := by
      rcases lt_or_gt_of_ne hsame with hlt | hgt
      · simp [hbelow s.currentPrio hlt]
      · simp [hgt]
    rw [if_pos hmove, if_neg hsame]

theorem getMlqProc_of_empty {s : Sched Proc} (hhighest : s.highestPrio = none) :
    s.getMlqProc = (none, s) := by
  unfold getMlqProc
  simp only [hhighest]

/-- While the quota of the highest level lasts, the selection serves that level. -/
theorem getMlqProc_of_spent_lt {s : Sched Proc} {highest : Fin maxPrio}
    (hhighest : s.highestPrio = some highest) (hquota : s.spent highest < s.slot highest) :
    s.getMlqProc = s.dequeueAt highest (s.spent highest + 1) := by
  have hnonempty := (highestPrio_eq_some_iff.mp hhighest).1
  have hready : (s.mlqReadyQueue highest).empty = false :=
    empty_eq_false_iff.mpr hnonempty
  unfold getMlqProc
  simp only [hhighest, preempt_eq hhighest, hquota, hready, and_self, if_true]
  rfl

/-- When the quota of the highest level is spent, the selection serves the next
non-empty level in cyclic order. -/
theorem getMlqProc_of_slot_le {s : Sched Proc} {highest : Fin maxPrio}
    (hhighest : s.highestPrio = some highest) (hquota : s.slot highest ≤ s.spent highest) :
    ∃ next, s.findNext highest = some next ∧ s.getMlqProc = s.dequeueAt next 1 := by
  have hnonempty := (highestPrio_eq_some_iff.mp hhighest).1
  obtain ⟨next, hnext, -, -⟩ := exists_findNext highest hnonempty
  refine ⟨next, hnext, ?_⟩
  have hspent : ¬ s.spent highest < s.slot highest := not_lt.mpr hquota
  have hfind : findNext { s with currentPrio := highest, usedSlot := s.spent highest } highest =
      some next := hnext
  unfold getMlqProc
  simp only [hhighest, preempt_eq hhighest, hspent, false_and, if_false, hfind]
  rfl

/-- A selection over non-empty queues serves a non-empty level and takes its front. -/
theorem exists_getMlqProc {s : Sched Proc} {highest : Fin maxPrio}
    (hhighest : s.highestPrio = some highest) :
    ∃ level usedSlot, s.ready level ≠ [] ∧ s.getMlqProc = s.dequeueAt level usedSlot := by
  have hnonempty := (highestPrio_eq_some_iff.mp hhighest).1
  rcases lt_or_ge (s.spent highest) (s.slot highest) with hquota | hquota
  · exact ⟨highest, _, hnonempty, getMlqProc_of_spent_lt hhighest hquota⟩
  · obtain ⟨next, hnext, hget⟩ := getMlqProc_of_slot_le hhighest hquota
    obtain ⟨found, hfound, hready, -⟩ := exists_findNext highest hnonempty
    rw [hfound, Option.some.injEq] at hnext
    exact ⟨next, 1, hnext ▸ hready, hget⟩

/-- Serving a level returns its front. -/
theorem dequeueAt_fst {s : Sched Proc} {level : Fin maxPrio} {front : Proc} {rest : List Proc}
    (hcons : s.ready level = front :: rest) (usedSlot : Int) :
    (s.dequeueAt level usedSlot).1 = some front := by
  rw [dequeueAt, ProcQueue.dequeue_fst]
  exact (congrArg List.head? hcons).trans rfl

theorem eq_of_dequeueAt {s next : Sched Proc} {level : Fin maxPrio} {usedSlot : Int}
    {proc front : Proc} {rest : List Proc} (hcons : s.ready level = front :: rest)
    (hserve : s.dequeueAt level usedSlot = (some proc, next)) :
    front = proc ∧ (s.dequeueAt level usedSlot).2 = next := by
  have hproc : (s.dequeueAt level usedSlot).1 = some proc := congrArg Prod.fst hserve
  rw [dequeueAt_fst hcons, Option.some.injEq] at hproc
  exact ⟨hproc, congrArg Prod.snd hserve⟩

/-- All that `get_proc` can do: nothing when every queue is empty, and otherwise take
the front of some non-empty level. -/
theorem getProc_cases (s : Sched Proc) :
    (s.getProc = (none, s) ∧ ∀ level, s.ready level = []) ∨
    ∃ level usedSlot proc rest, s.ready level = proc :: rest ∧
      s.getProc = (some proc, (s.dequeueAt level usedSlot).2) := by
  cases hhighest : s.highestPrio with
  | none => exact Or.inl ⟨getMlqProc_of_empty hhighest, highestPrio_eq_none_iff.mp hhighest⟩
  | some highest =>
      obtain ⟨level, usedSlot, hready, hget⟩ := exists_getMlqProc hhighest
      obtain ⟨proc, rest, hcons⟩ := List.exists_cons_of_ne_nil hready
      refine Or.inr ⟨level, usedSlot, proc, rest, hcons, ?_⟩
      rw [getProc, hget, ← dequeueAt_fst hcons usedSlot]

-- The loops run over 140 levels; a unifier that unrolls them exhausts its stack.
attribute [irreducible] highestPrio findNext

end Sched

end SimpleOs
