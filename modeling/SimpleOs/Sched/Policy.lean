import Mathlib.Data.List.Basic
import SimpleOs.Foundation.Runs
import SimpleOs.Sched.Sched

/-! # The selection policy over whole runs

Every successful selection is logged with the state it was made in. The quota that
the scheduler keeps in two static variables is related to this log: the slots it has
counted are the most recent selections, and no level gets more selections in a row
than its quota while another level is waiting.
-/

namespace SimpleOs

open Sched

variable {Proc : Type}

/-- A successful selection: the process returned and the scheduler before the call. -/
structure Dispatch (Proc : Type) where
  proc : Proc
  before : Sched Proc

/-- Some level other than that of the returned process was non-empty. -/
def Dispatch.Contended (prio : Proc → Nat) (dispatch : Dispatch Proc) : Prop :=
  ∃ level : Fin maxPrio, prio dispatch.proc ≠ level ∧ dispatch.before.ready level ≠ []

/-- The scheduler and its successful selections, most recent first. -/
structure Dispatcher (Proc : Type) where
  sched : Sched Proc
  log : List (Dispatch Proc)

namespace Dispatcher

def start : Dispatcher Proc where
  sched := initScheduler
  log := []

def step (prio : Proc → Nat) (state : Dispatcher Proc) :
    SchedCall Proc → Option (Dispatcher Proc)
  | .addProc proc =>
      (addProc prio state.sched proc).toOption.map fun next => { state with sched := next }
  | .getProc =>
      match state.sched.getProc with
      | (none, next) => some { state with sched := next }
      | (some proc, next) =>
          some { sched := next, log := { proc := proc, before := state.sched } :: state.log }
  | .putProc proc =>
      (putProc prio state.sched proc).toOption.map fun next => { state with sched := next }

theorem step_getProc (prio : Proc → Nat) (state : Dispatcher Proc) :
    state.step prio .getProc =
      match state.sched.getProc with
      | (none, next) => some { state with sched := next }
      | (some proc, next) =>
          some { sched := next, log := { proc := proc, before := state.sched } :: state.log } :=
  rfl

/-- All of these selections returned processes of the level while another level was
waiting. -/
def Monopoly (prio : Proc → Nat) (level : Fin maxPrio) (block : List (Dispatch Proc)) : Prop :=
  ∀ dispatch ∈ block, prio dispatch.proc = level ∧ dispatch.Contended prio

/-- How the static variables of the selection relate to the log. -/
structure Policy (prio : Proc → Nat) (state : Dispatcher Proc) : Prop where
  level_prio : ∀ level, ∀ proc ∈ state.sched.ready level, prio proc = level
  slot_eq : ∀ level, state.sched.slot level = maxPrio - level
  used_nonneg : 0 ≤ state.sched.usedSlot
  used_le : state.sched.usedSlot ≤ state.sched.slot state.sched.currentPrio
  counted : ∃ recent older, state.log = recent ++ older ∧
    recent.length = state.sched.usedSlot ∧
    ∀ dispatch ∈ recent, prio dispatch.proc = state.sched.currentPrio
  last_level : ∀ dispatch older, state.log = dispatch :: older →
    prio dispatch.proc = state.sched.currentPrio
  streak_le : ∀ level recent older, state.log = recent ++ older →
    Monopoly prio level recent → recent.length ≤ state.sched.usedSlot
  block_le : ∀ level newer block older, state.log = newer ++ block ++ older →
    Monopoly prio level block → block.length ≤ state.sched.slot level

variable {prio : Proc → Nat} {state : Dispatcher Proc}

theorem Policy.slot_pos (hpolicy : Policy prio state) (level : Fin maxPrio) :
    0 < state.sched.slot level := by
  have hlevel : (level.val : Int) < maxPrio := by exact_mod_cast level.isLt
  rw [hpolicy.slot_eq]
  omega

theorem policy_start : Policy prio (start : Dispatcher Proc) where
  level_prio level proc hproc := by simp [start] at hproc
  slot_eq _ := rfl
  used_nonneg := le_refl _
  used_le := by
    change (0 : Int) ≤ 140 - 0
    omega
  counted := ⟨[], [], rfl, rfl, fun _ hmem => by cases hmem⟩
  last_level _ _ hlog := by cases hlog
  streak_le _ recent older hlog _ := by
    have hnil := (List.append_eq_nil_iff.mp hlog.symm).1
    rw [hnil]
    exact le_refl _
  block_le level newer block older hlog _ := by
    have hnil := (List.append_eq_nil_iff.mp (List.append_eq_nil_iff.mp hlog.symm).1).2
    have hlevel : (level.val : Int) < maxPrio := by exact_mod_cast level.isLt
    rw [hnil]
    change (0 : Int) ≤ maxPrio - level
    omega

/-- A block of the level cannot start at a selection of another level. -/
theorem Policy.streak_eq_nil (hpolicy : Policy prio state) {level : Fin maxPrio}
    {recent older : List (Dispatch Proc)} (hlog : state.log = recent ++ older)
    (hmonopoly : Monopoly prio level recent) (hne : state.sched.currentPrio ≠ level) :
    recent = [] := by
  cases recent with
  | nil => rfl
  | cons dispatch rest =>
      have hlast := hpolicy.last_level dispatch (rest ++ older) hlog
      have hlevel := (hmonopoly dispatch List.mem_cons_self).1
      exact absurd (Fin.ext (hlast.symm.trans hlevel)) hne

/-- A selection keeps the policy when the slot count it leaves is that of the longest
block ending with it, and counts only selections of its level. -/
theorem Policy.dispatch (hpolicy : Policy prio state) {level : Fin maxPrio} {usedSlot : Int}
    {proc : Proc} {rest : List Proc} (hcons : state.sched.ready level = proc :: rest)
    (hle : usedSlot ≤ state.sched.slot level)
    (hcounted : ∃ recent older, state.log = recent ++ older ∧
      (recent.length : Int) + 1 = usedSlot ∧ ∀ dispatch ∈ recent, prio dispatch.proc = level)
    (hstreak : ∀ recent older, state.log = recent ++ older →
      Monopoly prio level recent → (∃ other, level ≠ other ∧ state.sched.ready other ≠ []) →
      (recent.length : Int) + 1 ≤ usedSlot) :
    Policy prio
      { sched := (state.sched.dequeueAt level usedSlot).2
        log := { proc := proc, before := state.sched } :: state.log } := by
  have hproc : prio proc = level :=
    hpolicy.level_prio level proc (by rw [hcons]; exact List.mem_cons_self)
  obtain ⟨recent, older, hlog, hlength, hrecent⟩ := hcounted
  -- a block of selections that ends with this one
  have hstreak' : ∀ other block before,
      { proc := proc, before := state.sched } :: state.log = block ++ before →
      Monopoly prio other block → (block.length : Int) ≤ usedSlot := by
    intro other block before hblock hmonopoly
    cases block with
    | nil =>
        change ((0 : Nat) : Int) ≤ usedSlot
        omega
    | cons head tail =>
        rw [List.cons_append, List.cons.injEq] at hblock
        obtain ⟨rfl, htail⟩ := hblock
        obtain ⟨hhead, waiting, hwaiting, hready⟩ := hmonopoly _ List.mem_cons_self
        obtain rfl : other = level := Fin.ext (hhead.symm.trans hproc)
        rw [List.length_cons]
        push_cast
        refine hstreak tail before htail ?_ ⟨waiting, ?_, hready⟩
        · exact fun later hlater => hmonopoly later (List.mem_cons_of_mem _ hlater)
        · exact fun heq => hwaiting (hproc.trans (congrArg Fin.val heq))
  -- all other blocks are blocks of the old log
  refine
    { level_prio := ?_
      slot_eq := hpolicy.slot_eq
      used_nonneg := by show 0 ≤ usedSlot; omega
      used_le := hle
      counted := ⟨_ :: recent, older, by rw [hlog]; rfl, hlength, ?_⟩
      last_level := ?_
      streak_le := hstreak'
      block_le := ?_ }
  · intro other member hmember
    have hmember : member ∈ (state.sched.dequeueAt level usedSlot).2.ready other := hmember
    rw [ready_dequeueAt] at hmember
    split at hmember
    next hsame =>
      subst hsame
      exact hpolicy.level_prio other member (List.mem_of_mem_tail hmember)
    next => exact hpolicy.level_prio other member hmember
  · intro member hmember
    rcases List.mem_cons.mp hmember with rfl | hmember
    · exact hproc
    · exact hrecent member hmember
  · intro member before hbefore
    rw [List.cons.injEq] at hbefore
    rw [← hbefore.1]
    exact hproc
  · intro other newer block before hbefore hmonopoly
    cases newer with
    | nil =>
        have hbound := hstreak' other block before hbefore hmonopoly
        cases block with
        | nil => exact le_of_lt (hpolicy.slot_pos other)
        | cons head tail =>
            rw [List.nil_append, List.cons_append, List.cons.injEq] at hbefore
            have hhead := (hmonopoly head List.mem_cons_self).1
            rw [← hbefore.1] at hhead
            obtain rfl : other = level := Fin.ext (hhead.symm.trans hproc)
            exact hbound.trans hle
    | cons head tail =>
        rw [List.cons_append, List.cons_append, List.cons.injEq] at hbefore
        exact hpolicy.block_le other tail block before hbefore.2 hmonopoly

/-- A selection within the quota of the highest level. -/
theorem Policy.dispatch_highest (hpolicy : Policy prio state) {highest : Fin maxPrio}
    {proc : Proc} {rest : List Proc} (hcons : state.sched.ready highest = proc :: rest)
    (hquota : state.sched.spent highest < state.sched.slot highest) :
    Policy prio
      { sched := (state.sched.dequeueAt highest (state.sched.spent highest + 1)).2
        log := { proc := proc, before := state.sched } :: state.log } := by
  refine hpolicy.dispatch hcons (by omega) ?_ ?_
  -- the count goes on at the current level and starts anew at any other one
  · by_cases hsame : state.sched.currentPrio = highest
    · obtain ⟨recent, older, hlog, hlength, hrecent⟩ := hpolicy.counted
      exact ⟨recent, older, hlog, by rw [spent, if_pos hsame, hlength], hsame ▸ hrecent⟩
    · exact ⟨[], state.log, rfl, by rw [spent, if_neg hsame]; rfl, fun _ hmem => by cases hmem⟩
  · intro recent older hlog hmonopoly _
    by_cases hsame : state.sched.currentPrio = highest
    · have hbound := hpolicy.streak_le highest recent older hlog hmonopoly
      rw [spent, if_pos hsame]
      omega
    · rw [hpolicy.streak_eq_nil hlog hmonopoly hsame, spent, if_neg hsame]
      exact le_refl _

/-- When the quota of the highest level is spent, that level is the current one and the
counted selections are as many as its slots. -/
theorem Policy.current_of_slot_le (hpolicy : Policy prio state) {highest : Fin maxPrio}
    (hquota : state.sched.slot highest ≤ state.sched.spent highest) :
    state.sched.currentPrio = highest ∧
      state.sched.usedSlot = state.sched.slot highest := by
  have hpos := hpolicy.slot_pos highest
  by_cases hsame : state.sched.currentPrio = highest
  · have hle := hpolicy.used_le
    rw [spent, if_pos hsame] at hquota
    rw [hsame] at hle
    exact ⟨hsame, le_antisymm hle hquota⟩
  · rw [spent, if_neg hsame] at hquota
    omega

/-- A selection after the quota of the highest level is spent. -/
theorem Policy.dispatch_next (hpolicy : Policy prio state) {highest next : Fin maxPrio}
    {proc : Proc} {rest : List Proc} (hcons : state.sched.ready next = proc :: rest)
    (hquota : state.sched.slot highest ≤ state.sched.spent highest)
    (hwrapped : next = highest → ∀ other, other ≠ highest → state.sched.ready other = []) :
    Policy prio
      { sched := (state.sched.dequeueAt next 1).2
        log := { proc := proc, before := state.sched } :: state.log } := by
  have hcurrent := (hpolicy.current_of_slot_le hquota).1
  refine hpolicy.dispatch hcons (hpolicy.slot_pos next)
    ⟨[], state.log, rfl, rfl, fun _ hmem => by cases hmem⟩ ?_
  rintro recent older hlog hmonopoly ⟨other, hother, hready⟩
  by_cases hsame : next = highest
  -- the search comes back to the highest level only when no other one waits
  · exact absurd (hwrapped hsame other (fun heq => hother (hsame.trans heq.symm))) hready
  · have hne : state.sched.currentPrio ≠ next := fun heq => hsame (heq.symm.trans hcurrent)
    rw [hpolicy.streak_eq_nil hlog hmonopoly hne]
    exact le_refl _

/-- The insertion of a process at the back of its level changes nothing the policy
reads but the queue of that level. -/
theorem Policy.put {proc : Proc} {next : Sched Proc} (hpolicy : Policy prio state)
    (hput : enqueueReady prio state.sched proc = .ok next) :
    Policy prio { state with sched := next } := by
  obtain ⟨hprio, hready⟩ := ready_enqueueReady hput
  obtain ⟨hslot, hcurrent, hused⟩ := statics_enqueueReady hput
  refine
    { level_prio := ?_
      slot_eq := by simpa only [hslot] using hpolicy.slot_eq
      used_nonneg := by simpa only [hused] using hpolicy.used_nonneg
      used_le := by simpa only [hslot, hcurrent, hused] using hpolicy.used_le
      counted := by simpa only [hcurrent, hused] using hpolicy.counted
      last_level := by simpa only [hcurrent] using hpolicy.last_level
      streak_le := by simpa only [hused] using hpolicy.streak_le
      block_le := by simpa only [hslot] using hpolicy.block_le }
  intro level member hmember
  have hmember : member ∈ next.ready level := hmember
  rw [hready] at hmember
  split at hmember
  next hlevel =>
    rcases List.mem_append.mp hmember with hold | hnew
    · exact hpolicy.level_prio level member hold
    · rw [List.mem_singleton.mp hnew, hlevel.1]
  next => exact hpolicy.level_prio level member hmember

/-- What a selection does, with the front of the level it serves. -/
theorem Policy.get {proc : Proc} {next : Sched Proc} (hpolicy : Policy prio state)
    (hget : state.sched.getProc = (some proc, next)) :
    Policy prio
      { sched := next, log := { proc := proc, before := state.sched } :: state.log } := by
  cases hhighest : state.sched.highestPrio with
  | none =>
      rw [getProc, getMlqProc_of_empty hhighest] at hget
      cases hget
  | some highest =>
      have hnonempty := (highestPrio_eq_some_iff.mp hhighest).1
      rcases lt_or_ge (state.sched.spent highest) (state.sched.slot highest) with hquota | hquota
      · rw [getProc, getMlqProc_of_spent_lt hhighest hquota] at hget
        obtain ⟨front, rest, hcons⟩ := List.exists_cons_of_ne_nil hnonempty
        obtain ⟨rfl, rfl⟩ := eq_of_dequeueAt hcons hget
        exact hpolicy.dispatch_highest hcons hquota
      · obtain ⟨level, hlevel, hserve⟩ := getMlqProc_of_slot_le hhighest hquota
        obtain ⟨found, hfound, hready, hwrapped⟩ :=
          exists_findNext highest hnonempty
        obtain rfl : found = level := Option.some.inj (hfound.symm.trans hlevel)
        rw [getProc, hserve] at hget
        obtain ⟨front, rest, hcons⟩ := List.exists_cons_of_ne_nil hready
        obtain ⟨rfl, rfl⟩ := eq_of_dequeueAt hcons hget
        exact hpolicy.dispatch_next hcons hquota hwrapped

/-- `running_list` is not part of the policy. -/
theorem Policy.running (hpolicy : Policy prio state) (proc : Proc) :
    Policy prio { state with sched := state.sched.enqueueRunning proc } where
  level_prio := hpolicy.level_prio
  slot_eq := hpolicy.slot_eq
  used_nonneg := hpolicy.used_nonneg
  used_le := hpolicy.used_le
  counted := hpolicy.counted
  last_level := hpolicy.last_level
  streak_le := hpolicy.streak_le
  block_le := hpolicy.block_le

theorem Policy.step {call : SchedCall Proc} {next : Dispatcher Proc}
    (hpolicy : Policy prio state) (hstep : state.step prio call = some next) :
    Policy prio next := by
  cases call with
  | addProc proc =>
      obtain ⟨sched, hadd, rfl⟩ := Option.map_eq_some_iff.mp hstep
      exact (hpolicy.running proc).put (Runs.toOption_eq_some_iff.mp hadd)
  | putProc proc =>
      obtain ⟨sched, hput, rfl⟩ := Option.map_eq_some_iff.mp hstep
      exact (hpolicy.running proc).put (Runs.toOption_eq_some_iff.mp hput)
  | getProc =>
      rw [step_getProc] at hstep
      rcases hget : state.sched.getProc with ⟨_ | proc, sched⟩
      · rw [hget] at hstep
        cases hstep
        rcases state.sched.getProc_cases with ⟨hnone, -⟩ | ⟨_, _, _, _, -, hsome⟩
        · rw [hnone, Prod.mk.injEq] at hget
          exact hget.2 ▸ hpolicy
        · rw [hsome] at hget
          cases hget
      · rw [hget] at hstep
        cases hstep
        exact hpolicy.get hget

theorem policy_of_run {calls : List (SchedCall Proc)}
    (hrun : Runs.run (step prio) start calls = some state) : Policy prio state :=
  Runs.run_invariant (Policy prio) (fun _ => True)
    (fun _ _ _ _ hpolicy hstep => hpolicy.step hstep) (fun _ _ => trivial) policy_start hrun

/-- The law of the selection: a call over a non-empty queue returns a process, a lower
level is served only right after the highest one had all its slots, and no level gets
more than its slots in a row while another level waits. -/
structure QuotaLaw (prio : Proc → Nat) (state : Dispatcher Proc) : Prop where
  quota : ∀ level, state.sched.slot level = maxPrio - level
  returns : (∃ level, state.sched.ready level ≠ []) →
    ∃ proc next, state.sched.getProc = (some proc, next)
  lower_after_quota : ∀ highest proc next, state.sched.ready highest ≠ [] →
    (∀ level, level < highest → state.sched.ready level = []) →
    state.sched.getProc = (some proc, next) → prio proc ≠ highest →
    ∃ recent older, state.log = recent ++ older ∧
      (recent.length : Int) = state.sched.slot highest ∧
      ∀ dispatch ∈ recent, prio dispatch.proc = highest
  monopoly_le : ∀ level newer block older, state.log = newer ++ block ++ older →
    Monopoly prio level block → block.length ≤ state.sched.slot level

theorem exists_getProc {s : Sched Proc} {level : Fin maxPrio} (hready : s.ready level ≠ []) :
    ∃ proc next, s.getProc = (some proc, next) := by
  rcases s.getProc_cases with ⟨-, hempty⟩ | ⟨_, _, proc, _, _, hget⟩
  · exact absurd (hempty level) hready
  · exact ⟨proc, _, hget⟩

/-- A selection that passes over the highest level finds its quota spent, and then the
counted selections are those of that level. -/
theorem Policy.lower_after_quota (hpolicy : Policy prio state) {highest : Fin maxPrio}
    {proc : Proc} {next : Sched Proc} (hhighest : state.sched.highestPrio = some highest)
    (hget : state.sched.getProc = (some proc, next)) (hlower : prio proc ≠ highest) :
    ∃ recent older, state.log = recent ++ older ∧
      (recent.length : Int) = state.sched.slot highest ∧
      ∀ dispatch ∈ recent, prio dispatch.proc = highest := by
  have hnonempty := (highestPrio_eq_some_iff.mp hhighest).1
  rcases lt_or_ge (state.sched.spent highest) (state.sched.slot highest) with hquota | hquota
  · rw [getProc, getMlqProc_of_spent_lt hhighest hquota] at hget
    obtain ⟨front, rest, hcons⟩ := List.exists_cons_of_ne_nil hnonempty
    obtain ⟨rfl, -⟩ := eq_of_dequeueAt hcons hget
    have hfront : front ∈ state.sched.ready highest := by
      rw [hcons]
      exact List.mem_cons_self
    exact absurd (hpolicy.level_prio highest front hfront) hlower
  · obtain ⟨hcurrent, hused⟩ := hpolicy.current_of_slot_le hquota
    obtain ⟨recent, older, hlog, hlength, hrecent⟩ := hpolicy.counted
    exact ⟨recent, older, hlog, hlength.trans hused, hcurrent ▸ hrecent⟩

theorem run_quotaLaw (calls : List (SchedCall Proc)) (state : Dispatcher Proc)
    (hrun : Runs.run (step prio) start calls = some state) : QuotaLaw prio state := by
  have hpolicy : Policy prio state := policy_of_run hrun
  refine
    { quota := hpolicy.slot_eq
      returns := fun ⟨_, hready⟩ => exists_getProc hready
      lower_after_quota := ?_
      monopoly_le := hpolicy.block_le }
  intro highest proc next hready hbelow hget hlower
  exact hpolicy.lower_after_quota (highestPrio_eq_some_iff.mpr ⟨hready, hbelow⟩) hget hlower

/-- Level 139 has one slot and level 138 has two. The third selection passes over 138. -/
theorem run_quotaLaw_two_levels :
    ∃ state : Dispatcher Nat,
      Runs.run (step id) start [.addProc 138, .addProc 139, .getProc, .putProc 138, .getProc,
        .putProc 138, .getProc] = some state ∧
      state.log.map Dispatch.proc = [139, 138, 138] ∧ QuotaLaw id state := by
  have hlog : (Runs.run (step id) start [.addProc 138, .addProc 139, .getProc, .putProc 138,
      .getProc, .putProc 138, .getProc]).map (fun state => state.log.map Dispatch.proc) =
        some [139, 138, 138] := by
    decide +kernel
  obtain ⟨state, hrun, hprocs⟩ := Option.map_eq_some_iff.mp hlog
  exact ⟨state, hrun, hprocs, run_quotaLaw _ state hrun⟩

end Dispatcher

end SimpleOs
