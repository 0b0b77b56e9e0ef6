import SimpleOs.Sched.Conservation
import SimpleOs.Sched.Mlq

/-! # The scheduler follows the policy

`sched.c` by its critical sections, in any order that its callers take them. The two static
variables of `get_mlq_proc` hold no more than what the processes served so far say, so every
section is a step of the policy.
-/

namespace SimpleOs

open Sched

variable {Proc : Type}

/-- The scheduler, with the processes that its ready queues took in and that it returned. -/
structure Service (Proc : Type) where
  sched : Sched Proc
  taken : List Proc
  served : List Proc

namespace Service

def start : Service Proc where
  sched := initScheduler
  taken := []
  served := []

/-- A critical section. -/
def step (prio : Proc → Nat) (service : Service Proc) : LockedCall Proc → Option (Service Proc)
  | .enqueueRunning proc => some { service with sched := service.sched.enqueueRunning proc }
  | .enqueueReady proc =>
      (enqueueReady prio service.sched proc).toOption.map fun next =>
        { service with
          sched := next
          taken :=
            if Ledger.full prio service.sched proc then service.taken
            else service.taken ++ [proc] }
  | .getProc =>
      match service.sched.getProc with
      | (none, next) => some { service with sched := next }
      | (some proc, next) =>
          some { service with sched := next, served := service.served ++ [proc] }
  | .searchRunning left => some { service with sched.runningList := left }

/-- What the policy sees. -/
def mlq (service : Service Proc) : Mlq Proc where
  waiting := service.sched.ready
  taken := service.taken
  served := service.served

/-- The static variables hold the level that was served last and the slots it has used. -/
structure Counted (prio : Proc → Nat) (service : Service Proc) : Prop where
  ordered : service.mlq.Ordered prio
  slot_eq : ∀ level, service.sched.slot level = maxPrio - level
  used_eq : service.sched.usedSlot = service.mlq.slotsUsed prio service.sched.currentPrio
  last_level : ∀ older proc, service.served = older ++ [proc] →
    prio proc = service.sched.currentPrio

variable {prio : Proc → Nat} {service next : Service Proc} {call : LockedCall Proc}
  {level highest : Fin maxPrio}

theorem counted_start : (start : Service Proc).Counted prio where
  ordered level := by
    change [] = [] ++ (initScheduler : Sched Proc).ready level
    rw [ready_initScheduler]
    rfl
  slot_eq _ := rfl
  used_eq := rfl
  last_level older proc hserved := by
    change [] = older ++ [proc] at hserved
    simp at hserved

/-! ## What the static variables say -/

theorem slot_eq_quota (hcounted : service.Counted prio) (level : Fin maxPrio) :
    service.sched.slot level = Mlq.quota level := by
  have hlt := level.isLt
  rw [hcounted.slot_eq, Mlq.quota]
  omega

/-- A level that was not served last has no slot used. -/
theorem Counted.slotsUsed_of_ne (hcounted : service.Counted prio)
    (hne : level ≠ service.sched.currentPrio) : service.mlq.slotsUsed prio level = 0 := by
  have hstreak : Mlq.streak prio service.served level = 0 := by
    rcases List.eq_nil_or_concat service.served with hnil | ⟨older, proc, hserved⟩
    · rw [hnil]
      rfl
    · rw [List.concat_eq_append] at hserved
      have hlast := hcounted.last_level older proc hserved
      rw [hserved, Mlq.streak_append, if_neg fun heq => hne (Fin.ext (heq.symm.trans hlast))]
  unfold Mlq.slotsUsed
  change Laps.lap _ (Mlq.streak prio service.served level) = 0
  rw [hstreak, Laps.lap_zero]

/-- The test of the quota asks for the slots that the level has used. -/
theorem Counted.spent_eq (hcounted : service.Counted prio) (highest : Fin maxPrio) :
    service.sched.spent highest = service.mlq.slotsUsed prio highest := by
  unfold spent
  split
  next hsame => rw [hcounted.used_eq, hsame]
  next hne => rw [hcounted.slotsUsed_of_ne (Ne.symm hne), Nat.cast_zero]

theorem urgent_iff : service.mlq.Urgent level ↔ service.sched.highestPrio = some level :=
  highestPrio_eq_some_iff.symm

/-- The cyclic search passes over the levels between that it finds empty. -/
theorem empty_of_findNext {s : Sched Proc} {between : Fin maxPrio}
    (hfind : s.findNext highest = some level) (hfirst : highest < between)
    (hlast : between < level) : s.ready between = [] := by
  rw [findNext, Option.map_eq_some_iff] at hfind
  obtain ⟨offset, hoffset, rfl⟩ := hfind
  have hhighest : highest.val < 140 := highest.isLt
  have hbetween : between.val < 140 := between.isLt
  have hbound : offset.val < 140 := offset.isLt
  change highest.val < between.val at hfirst
  change between.val < (highest.val + (offset.val + 1)) % 140 at hlast
  let place : Fin maxPrio := ⟨between.val - highest.val - 1, by change _ < 140; omega⟩
  have hplace : nextPrio highest place = between := by
    have hval : (highest.val + (between.val - highest.val - 1 + 1)) % 140 = between.val := by omega
    exact Fin.ext hval
  have hearlier : place < offset := by
    change between.val - highest.val - 1 < offset.val
    omega
  have hempty := (Fin.find?_eq_some_iff.mp hoffset).2 place hearlier
  rwa [hplace, Bool.not_eq_false', empty_eq_true_iff] at hempty

/-- The search comes back to the level it started from only when all others are empty. -/
theorem findNext_cases (hurgent : service.mlq.Urgent highest)
    (hfind : service.sched.findNext highest = some level) :
    service.mlq.Follows highest level ∨
      level = highest ∧ ∀ other, other ≠ highest → service.mlq.waiting other = [] := by
  obtain ⟨next, hnext, hnonempty, hwrapped⟩ := exists_findNext highest hurgent.1
  obtain rfl := Option.some.inj (hnext.symm.trans hfind)
  rcases lt_trichotomy next highest with habove | hsame | hbelow
  · exact absurd (hurgent.2 next habove) hnonempty
  · exact Or.inr ⟨hsame, hwrapped hsame⟩
  · exact Or.inl ⟨hbelow, hnonempty, fun between => empty_of_findNext hfind⟩

/-! ## Every section is a step of the policy -/

/-- Serving the level whose turn it is. -/
theorem Counted.serve (hcounted : service.Counted prio)
    (hselected : service.mlq.Selected prio level) {proc : Proc} {rest : List Proc}
    (hready : service.sched.ready level = proc :: rest) {usedSlot : Int}
    (hused : usedSlot = if service.mlq.slotsUsed prio level = Mlq.quota level then 1
      else (service.mlq.slotsUsed prio level : Int) + 1) :
    let next : Service Proc :=
      { service with
        sched := (service.sched.dequeueAt level usedSlot).2
        served := service.served ++ [proc] }
    next.Counted prio ∧ service.mlq.Step prio .getProc next.mlq := by
  intro next
  have hwaiting : service.mlq.waiting level = proc :: rest := hready
  have hprio : prio proc = level := hcounted.ordered.prio_eq (hwaiting ▸ List.mem_cons_self)
  have hmlq : next.mlq = { service.mlq with
      waiting := Function.update service.mlq.waiting level rest
      served := service.mlq.served ++ [proc] } := by
    have hafter : next.sched.ready = Function.update service.sched.ready level rest := by
      funext other
      change (service.sched.dequeueAt level usedSlot).2.ready other = _
      rw [ready_dequeueAt]
      by_cases hsame : other = level
      · subst hsame
        rw [if_pos rfl, Function.update_self, hready]
        rfl
      · rw [if_neg hsame, Function.update_of_ne hsame]
    exact congrArg (fun waiting => ({ service.mlq with
      waiting := waiting, served := service.mlq.served ++ [proc] } : Mlq Proc)) hafter
  have hstep : service.mlq.Step prio .getProc next.mlq := hmlq ▸ .serve hselected hready
  refine ⟨⟨hcounted.ordered.step hstep, hcounted.slot_eq, ?_, ?_⟩, hstep⟩
  · change usedSlot = next.mlq.slotsUsed prio level
    rw [hmlq, Mlq.slotsUsed_served hprio, hused]
    split <;> simp
  · intro older last hserved
    change service.served ++ [proc] = older ++ [last] at hserved
    obtain rfl := List.singleton_injective (List.append_inj' hserved rfl).2
    exact hprio

/-- The service after a selection from a level. -/
theorem eq_of_getProc (hstep : service.step prio .getProc = some next) {usedSlot : Int}
    (hget : service.sched.getMlqProc = service.sched.dequeueAt level usedSlot) {proc : Proc}
    {rest : List Proc} (hready : service.sched.ready level = proc :: rest) :
    next = { service with
      sched := (service.sched.dequeueAt level usedSlot).2
      served := service.served ++ [proc] } := by
  have hpair : service.sched.getProc = (some proc, (service.sched.dequeueAt level usedSlot).2) :=
    hget.trans (Prod.ext (dequeueAt_fst hready usedSlot) rfl)
  unfold step at hstep
  simp only [hpair, Option.some.injEq] at hstep
  exact hstep.symm

theorem Counted.getProc (hcounted : service.Counted prio)
    (hstep : service.step prio .getProc = some next) :
    next.Counted prio ∧ service.mlq.Step prio .getProc next.mlq := by
  cases hhighest : service.sched.highestPrio with
  | none =>
      have hnone : service.sched.getProc = (none, service.sched) := getMlqProc_of_empty hhighest
      unfold step at hstep
      simp only [hnone, Option.some.injEq] at hstep
      subst hstep
      exact ⟨hcounted, .idle (highestPrio_eq_none_iff.mp hhighest)⟩
  | some highest =>
      have hurgent : service.mlq.Urgent highest := urgent_iff.mpr hhighest
      have hspent := hcounted.spent_eq highest
      have hslot := slot_eq_quota hcounted highest
      have hle : service.mlq.slotsUsed prio highest ≤ Mlq.quota highest :=
        Laps.lap_le (Mlq.quota_pos highest) _
      rcases lt_or_ge (service.sched.spent highest) (service.sched.slot highest) with
        hquota | hquota
      · have hnot : service.mlq.slotsUsed prio highest ≠ Mlq.quota highest := by omega
        obtain ⟨proc, rest, hready⟩ := List.exists_cons_of_ne_nil hurgent.1
        rw [eq_of_getProc hstep (getMlqProc_of_spent_lt hhighest hquota) hready]
        exact hcounted.serve (.urgent hurgent (mt Mlq.sated_iff.mp hnot)) hready
          (by rw [if_neg hnot, hspent])
      · have hsated : service.mlq.slotsUsed prio highest = Mlq.quota highest := by omega
        obtain ⟨level, hfind, hget⟩ := getMlqProc_of_slot_le hhighest hquota
        rcases findNext_cases hurgent hfind with hfollows | ⟨rfl, hothers⟩
        · -- the level that was served last is another one
          have hpositive := Mlq.quota_pos highest
          have hcurrent : service.sched.currentPrio = highest := by
            by_contra hne
            rw [hcounted.slotsUsed_of_ne (Ne.symm hne)] at hsated
            omega
          have hunused := hcounted.slotsUsed_of_ne (hcurrent ▸ hfollows.1.ne')
          obtain ⟨proc, rest, hready⟩ := List.exists_cons_of_ne_nil hfollows.2.1
          rw [eq_of_getProc hstep hget hready]
          exact hcounted.serve (.next hurgent (Mlq.sated_iff.mpr hsated) hfollows) hready
            (by rw [hunused, if_neg (Mlq.quota_pos level).ne]; rfl)
        · obtain ⟨proc, rest, hready⟩ := List.exists_cons_of_ne_nil hurgent.1
          rw [eq_of_getProc hstep hget hready]
          exact hcounted.serve (.alone hurgent hothers) hready (by rw [if_pos hsated])

/-- A section that selects nothing keeps what the static variables say. -/
theorem Counted.keep (hcounted : service.Counted prio)
    (hstep : service.mlq.Step prio call next.mlq) (hslot : next.sched.slot = service.sched.slot)
    (hcurrent : next.sched.currentPrio = service.sched.currentPrio)
    (hused : next.sched.usedSlot = service.sched.usedSlot)
    (hserved : next.served = service.served) : next.Counted prio where
  ordered := hcounted.ordered.step hstep
  slot_eq := hslot ▸ hcounted.slot_eq
  used_eq := by
    have hsame : next.mlq.slotsUsed prio = service.mlq.slotsUsed prio := by
      unfold Mlq.slotsUsed mlq
      rw [hserved]
    rw [hused, hcurrent, hsame]
    exact hcounted.used_eq
  last_level := by
    rw [hserved, hcurrent]
    exact hcounted.last_level

/-- An insertion into a ready queue. -/
theorem Counted.enqueueReady {proc : Proc} (hcounted : service.Counted prio)
    (hstep : service.step prio (.enqueueReady proc) = some next) :
    next.Counted prio ∧ service.mlq.Step prio (.enqueueReady proc) next.mlq := by
  obtain ⟨sched, hput, rfl⟩ := Option.map_eq_some_iff.mp hstep
  rw [Runs.toOption_eq_some_iff] at hput
  obtain ⟨hprio, hready⟩ := ready_enqueueReady hput
  obtain ⟨hslot, hcurrent, hused⟩ := statics_enqueueReady hput
  let level : Fin maxPrio := ⟨prio proc, hprio⟩
  have hfull : Ledger.full prio service.sched proc =
      decide (maxQueueSize ≤ (service.sched.ready level).length) := dif_pos hprio
  suffices hmove : service.mlq.Step prio (.enqueueReady proc)
      { service with
        sched := sched
        taken := if Ledger.full prio service.sched proc then service.taken
          else service.taken ++ [proc] : Service Proc }.mlq from
    ⟨hcounted.keep hmove hslot hcurrent hused rfl, hmove⟩
  rw [hfull]
  by_cases hroom : (service.sched.ready level).length < maxQueueSize
  · have hwaiting : sched.ready = Function.update service.sched.ready level
        (service.sched.ready level ++ [proc]) := by
      funext other
      rw [hready]
      by_cases hsame : other = level
      · subst hsame
        rw [if_pos ⟨rfl, hroom⟩, Function.update_self]
      · rw [if_neg fun hboth => hsame hboth.1, Function.update_of_ne hsame]
    have hnot : ¬ decide (maxQueueSize ≤ (service.sched.ready level).length) = true := by
      simpa using hroom
    rw [if_neg hnot]
    unfold mlq
    rw [hwaiting]
    exact .take rfl hroom
  · have hwaiting : sched.ready = service.sched.ready := by
      funext other
      rw [hready, if_neg fun hboth => hroom hboth.2]
    have hle := Nat.le_of_not_lt hroom
    rw [if_pos (decide_eq_true hle)]
    unfold mlq
    rw [hwaiting]
    have hprioLevel : prio proc = level.val := rfl
    exact .refuse hprioLevel hle

theorem Counted.step (hcounted : service.Counted prio)
    (hstep : service.step prio call = some next) :
    next.Counted prio ∧ service.mlq.Step prio call next.mlq := by
  cases call with
  | enqueueRunning proc =>
      cases hstep
      have hlist : service.mlq.Step prio (.enqueueRunning proc) service.mlq := .list
      exact ⟨hcounted.keep hlist rfl rfl rfl rfl, hlist⟩
  | enqueueReady proc => exact hcounted.enqueueReady hstep
  | getProc => exact hcounted.getProc hstep
  | searchRunning left =>
      cases hstep
      have hsearch : service.mlq.Step prio (.searchRunning left) service.mlq := .search
      exact ⟨hcounted.keep hsearch rfl rfl rfl rfl, hsearch⟩

/-! ## Whole runs -/

variable {calls : List (LockedCall Proc)} {final : Service Proc}

theorem counted_of_run (hrun : Runs.run (step prio) start calls = some service) :
    service.Counted prio :=
  Runs.run_invariant (Counted prio) (fun _ => True)
    (fun _ _ _ _ hcounted hstep => (hcounted.step hstep).1) (fun _ _ => trivial)
    counted_start hrun

theorem mlq_start : (start : Service Proc).mlq = .start := by
  have hwaiting : (initScheduler : Sched Proc).ready = fun _ => [] := by
    funext level
    exact ready_initScheduler level
  exact congrArg (fun waiting => ({ waiting := waiting, taken := [], served := [] } : Mlq Proc))
    hwaiting

theorem Counted.run (hcounted : service.Counted prio)
    (hrun : Runs.run (Service.step prio) service calls = some final) :
    Mlq.Run prio service.mlq calls final.mlq := by
  induction calls generalizing service with
  | nil =>
      cases hrun
      exact .nil
  | cons call calls ih =>
      rw [Runs.run_cons] at hrun
      obtain ⟨next, hstep, hrest⟩ := Option.bind_eq_some_iff.mp hrun
      obtain ⟨hnext, hmove⟩ := hcounted.step hstep
      exact .cons hmove (ih hnext hrest)

/-- The scheduler refines the policy: what it serves, in any order of the critical sections of
its callers, is what the policy selects from the queues and the processes served so far, and the
policy allows nothing else. -/
theorem run_refines (prio : Proc → Nat) (calls : List (LockedCall Proc)) (final : Service Proc)
    (hrun : Runs.run (step prio) start calls = some final) (mlq : Mlq Proc) :
    Mlq.Run prio .start calls mlq ↔ mlq = final.mlq := by
  have hpolicy : Mlq.Run prio .start calls final.mlq := mlq_start ▸ counted_start.run hrun
  constructor
  · exact fun hother => hother.unique hpolicy
  · rintro rfl
    exact hpolicy

/-- Level 139 has one slot and level 138 has two. -/
def twoLevels : List (LockedCall Nat) :=
  [.enqueueReady 138, .enqueueRunning 139, .enqueueReady 139, .getProc, .getProc,
    .enqueueReady 138, .getProc, .enqueueReady 139, .getProc]

theorem run_refines_two_levels :
    ∃ final : Service Nat, Runs.run (step id) start twoLevels = some final ∧
      final.served = [138, 139, 138, 139] ∧
        ∀ mlq, Mlq.Run id .start twoLevels mlq ↔ mlq = final.mlq := by
  have hserved : (Runs.run (step id) start twoLevels).map (fun final => final.served) =
      some [138, 139, 138, 139] := by
    decide +kernel
  obtain ⟨final, hrun, hfinal⟩ := Option.map_eq_some_iff.mp hserved
  exact ⟨final, hrun, hfinal, run_refines id twoLevels final hrun⟩

/-- Every level serves the processes that it took in, in their order, and none is lost, doubled
or overtaken within its level, whatever happens to the other levels in between. -/
theorem run_ordered (prio : Proc → Nat) (calls : List (LockedCall Proc)) (final : Service Proc)
    (hrun : Runs.run (step prio) start calls = some final) (level : Fin maxPrio) :
    (final.taken.filter fun proc => prio proc = level) =
      (final.served.filter fun proc => prio proc = level) ++ final.sched.ready level :=
  (counted_of_run hrun).ordered level

/-- Two processes of one level, the first of them twice, and one of another level. -/
theorem run_ordered_one_level :
    ∃ final : Service (Nat × Nat),
      Runs.run (step Prod.fst) start [.enqueueReady (138, 0), .enqueueReady (7, 0),
        .enqueueReady (138, 1), .getProc, .getProc, .enqueueReady (138, 0), .getProc] =
          some final ∧
      final.served = [(7, 0), (138, 0), (138, 1)] ∧
      (final.taken.filter fun proc => proc.1 = 138) =
        (final.served.filter fun proc => proc.1 = 138) ++ final.sched.ready ⟨138, by decide⟩ := by
  have hserved : (Runs.run (@step (Nat × Nat) Prod.fst) start [.enqueueReady (138, 0),
      .enqueueReady (7, 0), .enqueueReady (138, 1), .getProc, .getProc, .enqueueReady (138, 0),
      .getProc]).map (fun final => final.served) = some [(7, 0), (138, 0), (138, 1)] := by
    decide +kernel
  obtain ⟨final, hrun, hfinal⟩ := Option.map_eq_some_iff.mp hserved
  exact ⟨final, hrun, hfinal, run_ordered Prod.fst _ final hrun ⟨138, by decide⟩⟩

/-! ## Starvation -/

theorem Counted.starved (hcounted : service.Counted prio)
    (hrun : Runs.run (Service.step prio) service calls = some final)
    (habove : ∀ move ∈ Runs.taken (Service.step prio) service calls, move.2.selects = true →
      ∃ first second, first < second ∧ second < level ∧ move.1.sched.ready first ≠ [] ∧
        move.1.sched.ready second ≠ []) :
    (final.served.filter fun proc => prio proc = level) =
      service.served.filter fun proc => prio proc = level := by
  induction calls generalizing service with
  | nil =>
      cases hrun
      rfl
  | cons call calls ih =>
      rw [Runs.run_cons] at hrun
      obtain ⟨next, hstep, hrest⟩ := Option.bind_eq_some_iff.mp hrun
      obtain ⟨hnext, hmove⟩ := hcounted.step hstep
      simp only [Runs.taken, hstep, List.mem_cons, forall_eq_or_imp] at habove
      rw [ih hnext hrest habove.2]
      exact hmove.served_filter hcounted.ordered habove.1

/-- As long as two more urgent levels hold processes whenever one is selected, a level is not
served at all, however many of its processes wait and however long. -/
theorem run_starved (prio : Proc → Nat) (calls later : List (LockedCall Proc))
    (service final : Service Proc) (level : Fin maxPrio)
    (hrun : Runs.run (step prio) start calls = some service)
    (hlater : Runs.run (step prio) service later = some final)
    (habove : ∀ move ∈ Runs.taken (step prio) service later, move.2.selects = true →
      ∃ first second, first < second ∧ second < level ∧ move.1.sched.ready first ≠ [] ∧
        move.1.sched.ready second ≠ []) :
    (final.served.filter fun proc => prio proc = level) =
      service.served.filter fun proc => prio proc = level :=
  (counted_of_run hrun).starved hlater habove

/-- Three levels, the first two with two processes each. -/
def threeLevels : List (LockedCall Nat) :=
  [.enqueueReady 137, .enqueueReady 138, .enqueueReady 139, .enqueueReady 137, .enqueueReady 138]

/-- The processes of the first two are put back at once. -/
def twoOfThree : List (LockedCall Nat) :=
  [.getProc, .enqueueReady 137, .getProc, .enqueueReady 137, .getProc, .enqueueReady 137,
    .getProc, .enqueueReady 138, .getProc]

theorem run_starved_three_levels :
    ∃ service final : Service Nat, Runs.run (step id) start threeLevels = some service ∧
      Runs.run (step id) service twoOfThree = some final ∧
      final.served = [137, 137, 137, 138, 137] ∧
      (final.served.filter fun proc => proc = 139) =
        service.served.filter fun proc => proc = 139 := by
  let first : Fin maxPrio := ⟨137, by decide⟩
  let second : Fin maxPrio := ⟨138, by decide⟩
  have hall : (Runs.run (step id) start threeLevels).map (fun service =>
      ((Runs.run (step id) service twoOfThree).map fun final => final.served,
        (Runs.taken (step id) service twoOfThree).all fun move =>
          move.1.sched.ready first ≠ [] ∧ move.1.sched.ready second ≠ [])) =
        some (some [137, 137, 137, 138, 137], true) := by
    decide +kernel
  obtain ⟨service, hrun, hpair⟩ := Option.map_eq_some_iff.mp hall
  obtain ⟨hserved, htaken⟩ := Prod.mk.inj hpair
  obtain ⟨final, hlater, hfinal⟩ := Option.map_eq_some_iff.mp hserved
  refine ⟨service, final, hrun, hlater, hfinal,
    run_starved id _ _ service final ⟨139, by decide⟩ hrun hlater fun move hmove _ => ?_⟩
  have hboth := of_decide_eq_true (List.all_eq_true.mp htaken move hmove)
  exact ⟨first, second, by decide, by decide, hboth⟩

end Service

end SimpleOs
