import Mathlib.Data.List.Nodup
import Mathlib.Data.List.Perm.Subperm
import SimpleOs.Foundation.Runs
import SimpleOs.Sched.Sched

/-! # Conservation of processes by the ready queues

The callers of the scheduler are recorded in a ledger: which processes were added,
which are held by the caller that got them, and which were refused because their
level was full when they were added or put back. Every process that was added is
always in exactly one of these places or once in its own ready queue.
-/

namespace SimpleOs

open Sched

variable {Proc : Type} [DecidableEq Proc]

/-- The scheduler together with what its callers know. -/
structure Ledger (Proc : Type) where
  sched : Sched Proc
  held : List Proc
  added : List Proc
  refused : List Proc

namespace Ledger

def start : Ledger Proc where
  sched := initScheduler
  held := []
  added := []
  refused := []

/-- Whether the level of a process has no free slot. -/
def full (prio : Proc → Nat) (s : Sched Proc) (proc : Proc) : Bool :=
  if h : prio proc < maxPrio then maxQueueSize ≤ (s.ready ⟨prio proc, h⟩).length else false

/-- The record of an insertion: the process is refused when its level was full. -/
def inserted (prio : Proc → Nat) (ledger : Ledger Proc) (proc : Proc) (next : Sched Proc) :
    Ledger Proc :=
  { ledger with
    sched := next
    refused := if full prio ledger.sched proc then proc :: ledger.refused else ledger.refused }

/-- One call. Only a new process is added, and only a held process is put back. -/
def step (prio : Proc → Nat) (ledger : Ledger Proc) : SchedCall Proc → Option (Ledger Proc)
  | .addProc proc =>
      if proc ∈ ledger.added then none
      else (addProc prio ledger.sched proc).toOption.map
        (inserted prio { ledger with added := proc :: ledger.added } proc)
  | .getProc =>
      match ledger.sched.getProc with
      | (none, next) => some { ledger with sched := next }
      | (some proc, next) => some { ledger with sched := next, held := proc :: ledger.held }
  | .putProc proc =>
      if proc ∈ ledger.held then
        (putProc prio ledger.sched proc).toOption.map
          (inserted prio { ledger with held := ledger.held.erase proc } proc)
      else none

/-- The process waits exactly once, at the level of its priority. -/
def Waits (prio : Proc → Nat) (ledger : Ledger Proc) (proc : Proc) : Prop :=
  ∃ level : Fin maxPrio, prio proc = level ∧ (ledger.sched.ready level).count proc = 1 ∧
    ∀ other, other ≠ level → proc ∉ ledger.sched.ready other

/-- The process is in no ready queue. -/
def Absent (ledger : Ledger Proc) (proc : Proc) : Prop :=
  ∀ level, proc ∉ ledger.sched.ready level

/-- Every added process waits once or is held once, and not both. -/
def Conserved (prio : Proc → Nat) (ledger : Ledger Proc) : Prop :=
  ∀ proc ∈ ledger.added, (ledger.Waits prio proc ∧ proc ∉ ledger.held) ∨
    (ledger.Absent proc ∧ ledger.held.count proc = 1)

/-- Conservation with the processes accounted for that a full queue refused. -/
def Accounted (prio : Proc → Nat) (ledger : Ledger Proc) : Prop :=
  ∀ proc ∈ ledger.added,
    (ledger.Waits prio proc ∧ proc ∉ ledger.held ∧ proc ∉ ledger.refused) ∨
    (ledger.Absent proc ∧ ledger.held.count proc = 1 ∧ proc ∉ ledger.refused) ∨
    (ledger.Absent proc ∧ proc ∉ ledger.held ∧ proc ∈ ledger.refused)

/-- The invariant behind conservation. A process that a call has taken from its caller
and not yet inserted is in transit and in no other place. -/
structure Placed (prio : Proc → Nat) (transit : Option Proc) (ledger : Ledger Proc) : Prop where
  level_prio : ∀ level, ∀ proc ∈ ledger.sched.ready level, prio proc = level
  ready_nodup : ∀ level, (ledger.sched.ready level).Nodup
  held_nodup : ledger.held.Nodup
  ready_not_held : ∀ level, ∀ proc ∈ ledger.sched.ready level, proc ∉ ledger.held
  refused_nowhere : ∀ proc ∈ ledger.refused, proc ∉ ledger.held ∧ ledger.Absent proc
  transit_nowhere : ∀ proc, transit = some proc →
    proc ∉ ledger.held ∧ proc ∉ ledger.refused ∧ ledger.Absent proc
  added_iff : ∀ proc, proc ∈ ledger.added ↔ (∃ level, proc ∈ ledger.sched.ready level) ∨
    proc ∈ ledger.held ∨ proc ∈ ledger.refused ∨ transit = some proc
  crowded : ∀ proc ∈ ledger.refused,
    maxQueueSize < (ledger.added.filter fun other => prio other = prio proc).length

variable {prio : Proc → Nat} {ledger : Ledger Proc}

theorem step_addProc (proc : Proc) : ledger.step prio (.addProc proc) =
    if proc ∈ ledger.added then none
    else (addProc prio ledger.sched proc).toOption.map
      (inserted prio { ledger with added := proc :: ledger.added } proc) := rfl

theorem step_getProc : ledger.step prio .getProc =
    match ledger.sched.getProc with
    | (none, next) => some { ledger with sched := next }
    | (some proc, next) => some { ledger with sched := next, held := proc :: ledger.held } := rfl

theorem step_putProc (proc : Proc) : ledger.step prio (.putProc proc) =
    if proc ∈ ledger.held then
      (putProc prio ledger.sched proc).toOption.map
        (inserted prio { ledger with held := ledger.held.erase proc } proc)
    else none := rfl

omit [DecidableEq Proc] in
theorem placed_start : Placed prio none (start : Ledger Proc) where
  level_prio level proc hproc := by simp [start] at hproc
  ready_nodup level := by simp [start]
  held_nodup := List.nodup_nil
  ready_not_held level proc hproc := by simp [start] at hproc
  refused_nowhere proc hproc := by simp [start] at hproc
  transit_nowhere proc hproc := by cases hproc
  added_iff proc := by simp [start]
  crowded proc hproc := by simp [start] at hproc

omit [DecidableEq Proc] in
/-- A refused insertion leaves its level as crowded as the invariant says: the waiting
processes and the refused one are distinct added processes of that priority. -/
theorem Placed.crowded_of_full {proc : Proc} (hplaced : Placed prio (some proc) ledger)
    (hprio : prio proc < maxPrio)
    (hfull : maxQueueSize ≤ (ledger.sched.ready ⟨prio proc, hprio⟩).length) :
    maxQueueSize < (ledger.added.filter fun other => prio other = prio proc).length := by
  have hnowhere := hplaced.transit_nowhere proc rfl
  have hnodup : (proc :: ledger.sched.ready ⟨prio proc, hprio⟩).Nodup :=
    List.nodup_cons.mpr ⟨hnowhere.2.2 _, hplaced.ready_nodup _⟩
  have hsubset : proc :: ledger.sched.ready ⟨prio proc, hprio⟩ ⊆
      ledger.added.filter fun other => prio other = prio proc := by
    intro other hother
    rw [List.mem_filter, decide_eq_true_eq, hplaced.added_iff]
    rcases List.mem_cons.mp hother with rfl | hready
    · exact ⟨Or.inr (Or.inr (Or.inr rfl)), rfl⟩
    · exact ⟨Or.inl ⟨_, hready⟩, hplaced.level_prio _ other hready⟩
  -- a full level and the process refused by it
  have hlength := (hnodup.subperm hsubset).length_le
  rw [List.length_cons] at hlength
  omega

omit [DecidableEq Proc] in
/-- The process in transit goes to the back of its level. -/
theorem Placed.queue {proc : Proc} {next : Sched Proc} (hplaced : Placed prio (some proc) ledger)
    (hprio : prio proc < maxPrio)
    (hready : ∀ level, next.ready level =
      if level = ⟨prio proc, hprio⟩ then ledger.sched.ready level ++ [proc]
      else ledger.sched.ready level) :
    Placed prio none { ledger with sched := next } := by
  obtain ⟨hnotHeld, hnotRefused, habsent⟩ := hplaced.transit_nowhere proc rfl
  have hmem : ∀ level other, other ∈ next.ready level ↔
      other ∈ ledger.sched.ready level ∨ (level = ⟨prio proc, hprio⟩ ∧ other = proc) := by
    intro level other
    rw [hready level]
    by_cases hlevel : level = ⟨prio proc, hprio⟩ <;> simp [hlevel]
  refine
    { level_prio := ?_, ready_nodup := ?_, held_nodup := hplaced.held_nodup,
      ready_not_held := ?_, refused_nowhere := ?_,
      transit_nowhere := (fun _ hnone => by cases hnone),
      added_iff := ?_, crowded := hplaced.crowded }
  · intro level other hother
    rcases (hmem level other).mp hother with hold | ⟨rfl, rfl⟩
    · exact hplaced.level_prio level other hold
    · rfl
  · intro level
    change (next.ready level).Nodup
    rw [hready level]
    split
    next hlevel =>
      refine List.Nodup.append (hplaced.ready_nodup level) (List.nodup_singleton proc) ?_
      exact List.disjoint_singleton.mpr (habsent level)
    next => exact hplaced.ready_nodup level
  · intro level other hother
    rcases (hmem level other).mp hother with hold | ⟨-, rfl⟩
    · exact hplaced.ready_not_held level other hold
    · exact hnotHeld
  · intro other hother
    refine ⟨(hplaced.refused_nowhere other hother).1, fun level hmember => ?_⟩
    rcases (hmem level other).mp hmember with hold | ⟨-, rfl⟩
    · exact (hplaced.refused_nowhere other hother).2 level hold
    · exact hnotRefused hother
  -- the only new member of a queue is the process that was in transit
  · intro other
    rw [hplaced.added_iff other]
    constructor
    · rintro (⟨level, hold⟩ | hheld | hrefused | htransit)
      · exact Or.inl ⟨level, (hmem level other).mpr (Or.inl hold)⟩
      · exact Or.inr (Or.inl hheld)
      · exact Or.inr (Or.inr (Or.inl hrefused))
      · cases htransit
        exact Or.inl ⟨_, (hmem _ _).mpr (Or.inr ⟨rfl, rfl⟩)⟩
    · rintro (⟨level, hmember⟩ | hheld | hrefused | hnone)
      · rcases (hmem level other).mp hmember with hold | ⟨-, rfl⟩
        · exact Or.inl ⟨level, hold⟩
        · exact Or.inr (Or.inr (Or.inr rfl))
      · exact Or.inr (Or.inl hheld)
      · exact Or.inr (Or.inr (Or.inl hrefused))
      · cases hnone

omit [DecidableEq Proc] in
/-- The process in transit finds its level full. -/
theorem Placed.refuse {proc : Proc} {next : Sched Proc} (hplaced : Placed prio (some proc) ledger)
    (hsame : ∀ level, next.ready level = ledger.sched.ready level) (hprio : prio proc < maxPrio)
    (hfull : maxQueueSize ≤ (ledger.sched.ready ⟨prio proc, hprio⟩).length) :
    Placed prio none { ledger with sched := next, refused := proc :: ledger.refused } := by
  obtain ⟨hnotHeld, -, habsent⟩ := hplaced.transit_nowhere proc rfl
  refine
    { level_prio := ?_, ready_nodup := ?_, held_nodup := hplaced.held_nodup,
      ready_not_held := ?_, refused_nowhere := ?_,
      transit_nowhere := (fun _ hnone => by cases hnone),
      added_iff := ?_, crowded := ?_ }
  · simpa only [hsame] using hplaced.level_prio
  · simpa only [hsame] using hplaced.ready_nodup
  · simpa only [hsame] using hplaced.ready_not_held
  · intro other hother
    simp only [Absent, hsame]
    rcases List.mem_cons.mp hother with rfl | hold
    · exact ⟨hnotHeld, habsent⟩
    · exact hplaced.refused_nowhere other hold
  · intro other
    simp only [hsame, List.mem_cons]
    rw [hplaced.added_iff other, Option.some.injEq]
    tauto
  · intro other hother
    rcases List.mem_cons.mp hother with rfl | hold
    · exact hplaced.crowded_of_full hprio hfull
    · exact hplaced.crowded other hold

omit [DecidableEq Proc] in
/-- Inserting the process in transit puts it at the back of its level, or records it
as refused. -/
theorem Placed.insert {proc : Proc} {next : Sched Proc}
    (hplaced : Placed prio (some proc) ledger)
    (hinserted : Inserted prio ledger.sched proc next) :
    Placed prio none (ledger.inserted prio proc next) := by
  obtain ⟨hprio, hready⟩ := hinserted
  unfold inserted full
  rw [dif_pos hprio]
  by_cases hfull : maxQueueSize ≤ (ledger.sched.ready ⟨prio proc, hprio⟩).length
  · rw [if_pos (decide_eq_true hfull)]
    refine hplaced.refuse (fun level => ?_) hprio hfull
    rw [hready level, if_neg (fun h => Nat.not_lt.mpr hfull h.2)]
  · rw [if_neg (by simpa using hfull)]
    refine hplaced.queue hprio fun level => ?_
    simpa only [Nat.lt_of_not_le hfull, and_true] using hready level

omit [DecidableEq Proc] in
/-- Adding a process sets it in transit. -/
theorem Placed.add {proc : Proc} (hplaced : Placed prio none ledger)
    (hnew : proc ∉ ledger.added) :
    Placed prio (some proc) { ledger with added := proc :: ledger.added } where
  level_prio := hplaced.level_prio
  ready_nodup := hplaced.ready_nodup
  held_nodup := hplaced.held_nodup
  ready_not_held := hplaced.ready_not_held
  refused_nowhere := hplaced.refused_nowhere
  transit_nowhere other hother := by
    cases hother
    have hnowhere := (hplaced.added_iff proc).not.mp hnew
    simp only [not_or, not_exists] at hnowhere
    exact ⟨hnowhere.2.1, hnowhere.2.2.1, hnowhere.1⟩
  added_iff other := by
    rw [List.mem_cons, hplaced.added_iff other, Option.some.injEq, eq_comm (a := other)]
    simp only [reduceCtorEq, or_false]
    tauto
  crowded other hother := by
    refine (hplaced.crowded other hother).trans_le ?_
    exact ((List.sublist_cons_self proc ledger.added).filter _).length_le

/-- Putting a process back takes it from its holder and sets it in transit. -/
theorem Placed.release {proc : Proc} (hplaced : Placed prio none ledger)
    (hheld : proc ∈ ledger.held) :
    Placed prio (some proc) { ledger with held := ledger.held.erase proc } where
  level_prio := hplaced.level_prio
  ready_nodup := hplaced.ready_nodup
  held_nodup := hplaced.held_nodup.erase proc
  ready_not_held level other hother hmem :=
    hplaced.ready_not_held level other hother (List.mem_of_mem_erase hmem)
  refused_nowhere other hother :=
    ⟨fun hmem => (hplaced.refused_nowhere other hother).1 (List.mem_of_mem_erase hmem),
      (hplaced.refused_nowhere other hother).2⟩
  transit_nowhere other hother := by
    cases hother
    refine ⟨fun hmem => ((hplaced.held_nodup.mem_erase_iff).mp hmem).1 rfl, ?_, ?_⟩
    · exact fun hrefused => (hplaced.refused_nowhere proc hrefused).1 hheld
    · exact fun level hready => hplaced.ready_not_held level proc hready hheld
  added_iff other := by
    rw [hplaced.added_iff other, hplaced.held_nodup.mem_erase_iff, Option.some.injEq]
    by_cases hsame : other = proc
    · subst hsame
      simp [hheld]
    · simp [hsame, Ne.symm hsame]
  crowded := hplaced.crowded

/-- A selection moves one process from the front of its level to the caller. -/
theorem Placed.get {level : Fin maxPrio} {proc : Proc} {rest : List Proc}
    (hplaced : Placed prio none ledger) (usedSlot : Int)
    (hcons : ledger.sched.ready level = proc :: rest) :
    Placed prio none { ledger with
      sched := (ledger.sched.dequeueAt level usedSlot).2
      held := proc :: ledger.held } := by
  have hfront : proc ∈ ledger.sched.ready level := by rw [hcons]; exact List.mem_cons_self
  have hnodup := hplaced.ready_nodup level
  rw [hcons] at hnodup
  obtain ⟨hnotRest, hrest⟩ := List.nodup_cons.mp hnodup
  have hready : ∀ other, (ledger.sched.dequeueAt level usedSlot).2.ready other =
      if other = level then rest else ledger.sched.ready other := by
    intro other
    rw [ready_dequeueAt, hcons, List.tail_cons]
  have hmem : ∀ place other,
      other ∈ (ledger.sched.dequeueAt level usedSlot).2.ready place →
        other ∈ ledger.sched.ready place ∧ other ≠ proc := by
    intro place other hother
    rw [hready] at hother
    split at hother
    next hlevel =>
      subst hlevel
      exact ⟨by rw [hcons]; exact List.mem_cons_of_mem _ hother,
        fun heq => hnotRest (heq ▸ hother)⟩
    next hlevel =>
      -- at another level the process would have another priority
      refine ⟨hother, fun heq => hlevel (Fin.ext ?_)⟩
      subst heq
      rw [← hplaced.level_prio place other hother, ← hplaced.level_prio level other hfront]
  refine
    { level_prio := fun place other hother => hplaced.level_prio place other (hmem _ _ hother).1
      ready_nodup := ?_
      held_nodup := List.nodup_cons.mpr
        ⟨hplaced.ready_not_held level proc hfront, hplaced.held_nodup⟩
      ready_not_held := ?_
      refused_nowhere := ?_
      transit_nowhere := fun _ hnone => by cases hnone
      added_iff := ?_
      crowded := hplaced.crowded }
  · intro place
    change ((ledger.sched.dequeueAt level usedSlot).2.ready place).Nodup
    rw [hready]
    split
    · exact hrest
    · exact hplaced.ready_nodup place
  · intro place other hother hheld
    obtain ⟨hold, hne⟩ := hmem place other hother
    rcases List.mem_cons.mp hheld with heq | hheld
    · exact hne heq
    · exact hplaced.ready_not_held place other hold hheld
  · intro other hother
    obtain ⟨hheld, habsent⟩ := hplaced.refused_nowhere other hother
    refine ⟨fun hmember => ?_, fun place hmember => habsent place (hmem place other hmember).1⟩
    rcases List.mem_cons.mp hmember with heq | hmember
    · exact habsent level (heq ▸ hfront)
    · exact hheld hmember
  · intro other
    rw [hplaced.added_iff other]
    constructor
    · rintro (⟨place, hold⟩ | hheld | hrest)
      · by_cases heq : other = proc
        · exact Or.inr (Or.inl (heq ▸ List.mem_cons_self))
        · refine Or.inl ⟨place, ?_⟩
          change other ∈ (ledger.sched.dequeueAt level usedSlot).2.ready place
          rw [hready]
          split
          next hlevel =>
            subst hlevel
            rw [hcons] at hold
            exact (List.mem_cons.mp hold).resolve_left heq
          next => exact hold
      · exact Or.inr (Or.inl (List.mem_cons_of_mem _ hheld))
      · exact Or.inr (Or.inr hrest)
    · rintro (⟨place, hmember⟩ | hheld | hrest)
      · exact Or.inl ⟨place, (hmem place other hmember).1⟩
      · rcases List.mem_cons.mp hheld with heq | hheld
        · exact Or.inl ⟨level, heq ▸ hfront⟩
        · exact Or.inr (Or.inl hheld)
      · exact Or.inr (Or.inr hrest)

theorem Placed.step {call : SchedCall Proc} {next : Ledger Proc}
    (hplaced : Placed prio none ledger) (hstep : ledger.step prio call = some next) :
    Placed prio none next := by
  cases call with
  | addProc proc =>
      rw [step_addProc] at hstep
      split at hstep
      next => cases hstep
      next hnew =>
        obtain ⟨sched, hadd, rfl⟩ := Option.map_eq_some_iff.mp hstep
        exact (hplaced.add hnew).insert (ready_putProc (Runs.toOption_eq_some_iff.mp hadd))
  | putProc proc =>
      rw [step_putProc] at hstep
      split at hstep
      next hheld =>
        obtain ⟨sched, hput, rfl⟩ := Option.map_eq_some_iff.mp hstep
        exact (hplaced.release hheld).insert (ready_putProc (Runs.toOption_eq_some_iff.mp hput))
      next => cases hstep
  | getProc =>
      rw [step_getProc] at hstep
      rcases ledger.sched.getProc_cases with ⟨hget, -⟩ | ⟨level, used, proc, rest, hcons, hget⟩
      · rw [hget] at hstep
        cases hstep
        exact hplaced
      · rw [hget] at hstep
        cases hstep
        exact hplaced.get used hcons

theorem Placed.waits {level : Fin maxPrio} {proc : Proc} (hplaced : Placed prio none ledger)
    (hready : proc ∈ ledger.sched.ready level) : ledger.Waits prio proc := by
  have hlevel := hplaced.level_prio level proc hready
  refine ⟨level, hlevel, List.count_eq_one_of_mem (hplaced.ready_nodup level) hready, ?_⟩
  intro other hother hmem
  exact hother (Fin.ext ((hplaced.level_prio other proc hmem).symm.trans hlevel))

theorem Placed.accounted (hplaced : Placed prio none ledger) : ledger.Accounted prio := by
  intro proc hadded
  have hcases := (hplaced.added_iff proc).mp hadded
  simp only [reduceCtorEq, or_false] at hcases
  rcases hcases with ⟨level, hready⟩ | hheld | hrefused
  · refine Or.inl ⟨hplaced.waits hready, hplaced.ready_not_held level proc hready, ?_⟩
    exact fun hrefused => (hplaced.refused_nowhere proc hrefused).2 level hready
  · refine Or.inr (Or.inl ⟨fun level hready => hplaced.ready_not_held level proc hready hheld,
      List.count_eq_one_of_mem hplaced.held_nodup hheld, ?_⟩)
    exact fun hrefused => (hplaced.refused_nowhere proc hrefused).1 hheld
  · obtain ⟨hheld, habsent⟩ := hplaced.refused_nowhere proc hrefused
    exact Or.inr (Or.inr ⟨habsent, hheld, hrefused⟩)

/-- A refused process is an added one that nobody holds and no queue contains. -/
theorem Placed.not_conserved {proc : Proc} (hplaced : Placed prio none ledger)
    (hrefused : proc ∈ ledger.refused) : ¬ ledger.Conserved prio := by
  intro hconserved
  obtain ⟨hheld, habsent⟩ := hplaced.refused_nowhere proc hrefused
  have hadded : proc ∈ ledger.added :=
    (hplaced.added_iff proc).mpr (Or.inr (Or.inr (Or.inl hrefused)))
  rcases hconserved proc hadded with ⟨⟨level, -, hcount, -⟩, -⟩ | ⟨-, hcount⟩
  · exact habsent level (List.count_pos_iff.mp (by omega))
  · exact hheld (List.count_pos_iff.mp (by omega))

theorem placed_of_run {calls : List (SchedCall Proc)}
    (hrun : Runs.run (step prio) start calls = some ledger) : Placed prio none ledger :=
  Runs.run_invariant (Placed prio none) (fun _ => True)
    (fun _ _ _ _ hplaced hstep => hplaced.step hstep) (fun _ _ => trivial) placed_start hrun

/-- A call of the callers that are modelled always completes when its process has a
priority of the scheduler: a new one is added, a held one is put back. -/
theorem exists_step (hprio : ∀ proc, prio proc < maxPrio) (call : SchedCall Proc)
    (hadd : ∀ proc, call = .addProc proc → proc ∉ ledger.added)
    (hput : ∀ proc, call = .putProc proc → proc ∈ ledger.held) :
    ∃ next, ledger.step prio call = some next := by
  cases call with
  | addProc proc =>
      obtain ⟨sched, hsched⟩ := exists_putProc (hprio proc) ledger.sched
      have hcall : addProc prio ledger.sched proc = .ok sched := hsched
      rw [step_addProc, if_neg (hadd proc rfl), hcall]
      exact ⟨_, rfl⟩
  | getProc =>
      rw [step_getProc]
      rcases ledger.sched.getProc with ⟨_ | proc, sched⟩
      · exact ⟨_, rfl⟩
      · exact ⟨_, rfl⟩
  | putProc proc =>
      obtain ⟨sched, hsched⟩ := exists_putProc (hprio proc) ledger.sched
      rw [step_putProc, if_pos (hput proc rfl), hsched]
      exact ⟨_, rfl⟩

/-- The queues lose no process but those that a full level refused, and there are none
of these while no more processes share a priority than a queue has slots. -/
theorem run_accounted (calls : List (SchedCall Proc)) (final : Ledger Proc)
    (hrun : Runs.run (step prio) start calls = some final) :
    final.Accounted prio ∧
      ((∀ level, (final.added.filter fun proc => prio proc = level).length ≤ maxQueueSize) →
        final.refused = [] ∧ final.Conserved prio) := by
  have hplaced : Placed prio none final := placed_of_run hrun
  refine ⟨hplaced.accounted, fun hroom => ?_⟩
  have hnone : final.refused = [] := by
    apply List.eq_nil_iff_forall_not_mem.mpr
    intro proc hrefused
    exact absurd (hplaced.crowded proc hrefused) (Nat.not_lt.mpr (hroom (prio proc)))
  refine ⟨hnone, fun proc hadded => ?_⟩
  rcases hplaced.accounted proc hadded with ⟨hwaits, hheld, -⟩ | ⟨habsent, hheld, -⟩ |
    ⟨-, -, hrefused⟩
  · exact Or.inl ⟨hwaits, hheld⟩
  · exact Or.inr ⟨habsent, hheld⟩
  · rw [hnone] at hrefused
    cases hrefused

/-- Two processes of different levels, one of which is dispatched and put back. -/
theorem run_accounted_two_levels :
    ∃ final : Ledger Nat,
      Runs.run (step id) start [.addProc 3, .addProc 5, .getProc, .putProc 3, .getProc] =
        some final ∧ final.Accounted id := by
  have hdone : (Runs.run (step id) start
      [.addProc 3, .addProc 5, .getProc, .putProc 3, .getProc]).isSome = true := by
    decide +kernel
  obtain ⟨final, hrun⟩ := Option.isSome_iff_exists.mp hdone
  exact ⟨final, hrun, (run_accounted _ final hrun).1⟩

/-- The fifty-first process of a level is added and lost. -/
theorem not_conserved_of_full_level :
    ∃ final : Ledger Nat,
      Runs.run (step fun _ => 0) start ((List.range 51).map .addProc) = some final ∧
        ¬ final.Conserved fun _ => 0 := by
  have hrefused : (Runs.run (step fun _ : Nat => 0) start
      ((List.range 51).map .addProc)).map Ledger.refused = some [50] := by
    decide +kernel
  obtain ⟨final, hrun, hfinal⟩ := Option.map_eq_some_iff.mp hrefused
  have hmem : 50 ∈ final.refused := hfinal ▸ List.mem_singleton_self 50
  exact ⟨final, hrun, (placed_of_run hrun).not_conserved hmem⟩

end Ledger

end SimpleOs
