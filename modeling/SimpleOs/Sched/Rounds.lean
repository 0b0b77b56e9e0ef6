import Mathlib.Algebra.BigOperators.Group.Finset.Basic
import Mathlib.Algebra.Order.BigOperators.Group.Finset
import Mathlib.Data.Finset.Card
import SimpleOs.Sched.Policy

/-! # Rounds of the selection

Here every selected process is put straight back, so the same levels stay occupied.
The preemption test sends each selection after one from a lower level back to the
highest one. Selections therefore come from two levels only: the highest one, and the
one that follows it in cyclic order.
-/

namespace SimpleOs

namespace Sched

variable {Proc : Type}

/-- The levels whose queue is non-empty. -/
def occupied (s : Sched Proc) : Finset (Fin maxPrio) :=
  Finset.univ.filter fun level => (s.mlqReadyQueue level).empty = false

@[simp] theorem mem_occupied {s : Sched Proc} {level : Fin maxPrio} :
    level ∈ s.occupied ↔ s.ready level ≠ [] := by
  simp [occupied]

/-- `get_mlq_proc`, then `put_mlq_proc` of the process it returned. -/
def turn (prio : Proc → Nat) (s : Sched Proc) : Option (Proc × Sched Proc) :=
  match s.getMlqProc with
  | (none, _) => none
  | (some proc, next) => (putMlqProc prio next proc).toOption.map fun next => (proc, next)

/-- The processes that a number of turns return, in order. -/
def turns (prio : Proc → Nat) (s : Sched Proc) : Nat → Option (List Proc)
  | 0 => some []
  | count + 1 => (turn prio s).bind fun served =>
      (turns prio served.2 count).map fun later => served.1 :: later

/-- No level is skipped. A window as long as all quotas together serves every occupied
level, and after a full quota of one level all others are served before it is again. -/
structure RoundLaw (prio : Proc → Nat) (s : Sched Proc) : Prop where
  window_full : ∀ count before window after,
    turns prio s count = some (before ++ window ++ after) →
    (window.length : Int) = ∑ level ∈ s.occupied, s.slot level →
    ∀ level ∈ s.occupied, ∃ proc ∈ window, prio proc = level
  others_served : ∀ count before block between proc after (level : Fin maxPrio),
    turns prio s count = some (before ++ block ++ between ++ proc :: after) →
    (block.length : Int) = s.slot level → (∀ turned ∈ block, prio turned = level) →
    prio proc = level →
    ∀ other ∈ s.occupied, other ≠ level → ∃ served ∈ between, prio served = other

end Sched

namespace Dispatcher

open Sched

variable {Proc : Type} {prio : Proc → Nat} {state : Dispatcher Proc}

/-- One turn keeps the policy and the set of occupied levels. -/
theorem Policy.turn {proc : Proc} {next : Sched Proc} (hpolicy : Policy prio state)
    (hturn : state.sched.turn prio = some (proc, next)) :
    Policy prio { sched := next, log := { proc := proc, before := state.sched } :: state.log } ∧
      ∀ level, next.ready level = [] ↔ state.sched.ready level = [] := by
  unfold Sched.turn at hturn
  rcases state.sched.getProc_cases with ⟨hget, -⟩ | ⟨level, used, front, rest, hcons, hget⟩
  · rw [getProc] at hget
    rw [hget] at hturn
    cases hturn
  · rw [getProc] at hget
    rw [hget] at hturn
    obtain ⟨found, hput, hfound⟩ := Option.map_eq_some_iff.mp hturn
    obtain ⟨rfl, rfl⟩ := Prod.mk.inj hfound
    have hput := Runs.toOption_eq_some_iff.mp hput
    refine ⟨(hpolicy.get hget).put hput, fun other => ?_⟩
    obtain ⟨hprio, hready⟩ := ready_enqueueReady hput
    have hlevel : (⟨prio front, hprio⟩ : Fin maxPrio) = level :=
      Fin.ext (hpolicy.level_prio level front (by rw [hcons]; exact List.mem_cons_self))
    have hroom : rest.length < maxQueueSize := by
      have hlength := state.sched.ready_length_le level
      rw [hcons, List.length_cons] at hlength
      omega
    rw [hready, hlevel, ready_dequeueAt, ready_dequeueAt, if_pos rfl, hcons, List.tail_cons]
    by_cases hsame : other = level
    · subst hsame
      simp [hcons, hroom]
    · simp [hsame]

/-- A turn serves the highest occupied level or the one the cyclic search finds from it. -/
theorem Policy.turn_level {proc : Proc} {next : Sched Proc} {highest : Fin maxPrio}
    (hpolicy : Policy prio state) (hhighest : state.sched.highestPrio = some highest)
    (hturn : state.sched.turn prio = some (proc, next)) :
    prio proc = highest ∨ ∃ level, state.sched.findNext highest = some level ∧
      prio proc = level := by
  have hserved : ∀ level used, state.sched.ready level ≠ [] →
      state.sched.getMlqProc = state.sched.dequeueAt level used → prio proc = level := by
    intro level used hready hget
    obtain ⟨front, rest, hcons⟩ := List.exists_cons_of_ne_nil hready
    unfold Sched.turn at hturn
    rw [hget, ← Prod.mk.eta (p := state.sched.dequeueAt level used), dequeueAt_fst hcons] at hturn
    obtain ⟨found, -, hfound⟩ := Option.map_eq_some_iff.mp hturn
    obtain ⟨rfl, -⟩ := Prod.mk.inj hfound
    exact hpolicy.level_prio level front (by rw [hcons]; exact List.mem_cons_self)
  have hnonempty := (highestPrio_eq_some_iff.mp hhighest).1
  rcases lt_or_ge (state.sched.spent highest) (state.sched.slot highest) with hquota | hquota
  · exact Or.inl (hserved _ _ hnonempty (getMlqProc_of_spent_lt hhighest hquota))
  · obtain ⟨level, hlevel, hget⟩ := getMlqProc_of_slot_le hhighest hquota
    obtain ⟨found, hfound, hready, -⟩ := exists_findNext highest hnonempty
    rw [hlevel, Option.some.injEq] at hfound
    exact Or.inr ⟨level, hlevel, hserved _ _ (hfound ▸ hready) hget⟩

theorem Policy.exists_turn {level : Fin maxPrio} (hpolicy : Policy prio state)
    (hready : state.sched.ready level ≠ []) :
    ∃ proc next, state.sched.turn prio = some (proc, next) := by
  rcases state.sched.getProc_cases with ⟨-, hempty⟩ | ⟨served, used, front, rest, hcons, hget⟩
  · exact absurd (hempty level) hready
  · have hprio : prio front = served :=
      hpolicy.level_prio served front (by rw [hcons]; exact List.mem_cons_self)
    have hlt : prio front < maxPrio := by
      rw [hprio]
      exact served.isLt
    obtain ⟨next, hput⟩ := exists_enqueueReady hlt (state.sched.dequeueAt served used).2
    rw [getProc] at hget
    refine ⟨front, next, ?_⟩
    unfold Sched.turn putMlqProc
    rw [hget]
    simp only [hput, Except.toOption, Option.map_some]

/-- Turns log their selections, all made with the same levels occupied. -/
theorem Policy.turns {count : Nat} {procs : List Proc} (hpolicy : Policy prio state)
    (hturns : state.sched.turns prio count = some procs) :
    ∃ final recent, Policy prio final ∧ final.sched.slot = state.sched.slot ∧
      final.log = recent ++ state.log ∧ recent.reverse.map Dispatch.proc = procs ∧
      ∀ dispatch ∈ recent, ∀ level,
        dispatch.before.ready level = [] ↔ state.sched.ready level = [] := by
  induction count generalizing state procs with
  | zero =>
      cases hturns
      exact ⟨state, [], hpolicy, rfl, rfl, rfl, fun _ hmem => by cases hmem⟩
  | succ count ih =>
      obtain ⟨⟨proc, next⟩, hturn, hrest⟩ := Option.bind_eq_some_iff.mp hturns
      obtain ⟨later, hlater, rfl⟩ := Option.map_eq_some_iff.mp hrest
      obtain ⟨hnext, hsame⟩ := hpolicy.turn hturn
      obtain ⟨final, recent, hfinal, hslot, hlog, hprocs, hready⟩ := ih hnext hlater
      refine ⟨final, recent ++ [{ proc := proc, before := state.sched }], hfinal, ?_, ?_, ?_, ?_⟩
      · funext level
        rw [hfinal.slot_eq, hpolicy.slot_eq]
      · rw [hlog, List.append_assoc]
        rfl
      · rw [List.reverse_append, List.map_append, hprocs]
        rfl
      · intro dispatch hmem level
        rcases List.mem_append.mp hmem with hmem | hmem
        · exact (hready dispatch hmem level).trans (hsame level)
        · rw [List.mem_singleton.mp hmem]

/-- All turns serve the two levels that the first one can serve. -/
theorem Policy.turns_level {count : Nat} {procs : List Proc} {highest : Fin maxPrio}
    (hpolicy : Policy prio state) (hhighest : state.sched.highestPrio = some highest)
    (hturns : state.sched.turns prio count = some procs) :
    ∀ proc ∈ procs, prio proc = highest ∨ ∃ level, state.sched.findNext highest = some level ∧
      prio proc = level := by
  induction count generalizing state procs with
  | zero =>
      cases hturns
      exact fun _ hmem => by cases hmem
  | succ count ih =>
      obtain ⟨⟨proc, next⟩, hturn, hrest⟩ := Option.bind_eq_some_iff.mp hturns
      obtain ⟨later, hlater, rfl⟩ := Option.map_eq_some_iff.mp hrest
      obtain ⟨hnext, hsame⟩ := hpolicy.turn hturn
      intro member hmember
      rcases List.mem_cons.mp hmember with rfl | hmember
      · exact hpolicy.turn_level hhighest hturn
      · rw [← findNext_congr hsame highest]
        exact ih hnext ((highestPrio_congr hsame).trans hhighest) hlater member hmember

theorem Policy.exists_turns {level : Fin maxPrio} (hpolicy : Policy prio state)
    (hready : state.sched.ready level ≠ []) (count : Nat) :
    ∃ procs, state.sched.turns prio count = some procs ∧ procs.length = count := by
  induction count generalizing state with
  | zero => exact ⟨[], rfl, rfl⟩
  | succ count ih =>
      obtain ⟨proc, next, hturn⟩ := hpolicy.exists_turn hready
      obtain ⟨hnext, hsame⟩ := hpolicy.turn hturn
      obtain ⟨later, hlater, hlength⟩ := ih hnext ((hsame level).not.mpr hready)
      refine ⟨proc :: later, ?_, by rw [List.length_cons, hlength]⟩
      rw [Sched.turns, hturn]
      exact congrArg (Option.map _) hlater

/-- With two other levels to serve, the level that neither search finds is skipped for
ever. -/
theorem Policy.not_roundLaw (hpolicy : Policy prio state)
    (hcard : 2 < state.sched.occupied.card) : ¬ RoundLaw prio state.sched := by
  intro hlaw
  obtain ⟨first, hfirst⟩ : ∃ level, level ∈ state.sched.occupied :=
    Finset.card_pos.mp (by omega)
  have hready := mem_occupied.mp hfirst
  cases hhighest : state.sched.highestPrio with
  | none => exact hready (highestPrio_eq_none_iff.mp hhighest first)
  | some highest =>
      obtain ⟨found, hfound, -, -⟩ := exists_findNext highest hready
      -- an occupied level that is neither the highest nor the next one found from there
      obtain ⟨skipped, hskipped, hothers⟩ :
          ∃ level ∈ state.sched.occupied, level ∉ ({highest, found} : Finset (Fin maxPrio)) := by
        refine Finset.exists_mem_notMem_of_card_lt_card (lt_of_le_of_lt ?_ hcard)
        exact Finset.card_le_two
      have hnonneg : 0 ≤ ∑ level ∈ state.sched.occupied, state.sched.slot level :=
        Finset.sum_nonneg fun level _ => le_of_lt (hpolicy.slot_pos level)
      obtain ⟨procs, hturns, hlength⟩ := hpolicy.exists_turns hready
        (∑ level ∈ state.sched.occupied, state.sched.slot level).toNat
      obtain ⟨proc, hproc, hlevel⟩ := hlaw.window_full _ [] procs [] (by simpa using hturns)
        (by rw [hlength]; exact Int.toNat_of_nonneg hnonneg) skipped hskipped
      simp only [Finset.mem_insert, Finset.mem_singleton, not_or] at hothers
      rcases hpolicy.turns_level hhighest hturns proc hproc with hhigh | ⟨level, hnext, hlow⟩
      · exact hothers.1 (Fin.ext (hlevel.symm.trans hhigh))
      · rw [hfound, Option.some.injEq] at hnext
        subst hnext
        exact hothers.2 (Fin.ext (hlevel.symm.trans hlow))

/-- Turns of one level in a row are at most its quota while another level is occupied. -/
theorem Policy.block_le_of_turns {count : Nat} {before block after : List Proc}
    {level other : Fin maxPrio} (hpolicy : Policy prio state)
    (hturns : state.sched.turns prio count = some (before ++ block ++ after))
    (hblock : ∀ proc ∈ block, prio proc = level) (hother : state.sched.ready other ≠ [])
    (hne : other ≠ level) : (block.length : Int) ≤ state.sched.slot level := by
  obtain ⟨final, recent, hfinal, hslot, hlog, hprocs, hready⟩ := hpolicy.turns hturns
  have hmap : recent.map Dispatch.proc = after.reverse ++ block.reverse ++ before.reverse := by
    rw [← List.reverse_reverse (recent.map Dispatch.proc), ← List.map_reverse, hprocs]
    simp only [List.reverse_append, List.append_assoc]
  obtain ⟨recentLater, oldest, rfl, hlater, -⟩ := List.map_eq_append_iff.mp hmap
  obtain ⟨newest, middle, rfl, -, hmiddle⟩ := List.map_eq_append_iff.mp hlater
  have hbound := hfinal.block_le level newest middle (oldest ++ state.log)
    (by rw [hlog]; simp only [List.append_assoc]) ?_
  · have hlength : middle.length = block.length := by
      rw [← block.length_reverse, ← hmiddle, List.length_map]
    rw [hslot, hlength] at hbound
    exact hbound
  · intro dispatch hdispatch
    have hproc : dispatch.proc ∈ block := by
      rw [← List.mem_reverse, ← hmiddle]
      exact List.mem_map_of_mem hdispatch
    refine ⟨hblock _ hproc, other, fun heq => hne (Fin.ext ?_), ?_⟩
    · exact heq.symm.trans (hblock _ hproc)
    · refine (hready dispatch ?_ other).not.mpr hother
      exact List.mem_append_left _ (List.mem_append_right _ hdispatch)

/-- Each turn serves an occupied level. -/
theorem Policy.turns_occupied {count : Nat} {procs : List Proc} (hpolicy : Policy prio state)
    (hturns : state.sched.turns prio count = some procs) :
    ∀ proc ∈ procs, ∃ level ∈ state.sched.occupied, prio proc = level := by
  intro proc hproc
  cases hhighest : state.sched.highestPrio with
  | none =>
      have hempty := highestPrio_eq_none_iff.mp hhighest
      cases count with
      | zero => cases hturns; cases hproc
      | succ count =>
          rw [Sched.turns, Sched.turn, getMlqProc_of_empty hhighest] at hturns
          cases hturns
  | some highest =>
      have hnonempty := (highestPrio_eq_some_iff.mp hhighest).1
      rcases hpolicy.turns_level hhighest hturns proc hproc with hhigh | ⟨level, hnext, hlow⟩
      · exact ⟨highest, mem_occupied.mpr hnonempty, hhigh⟩
      · obtain ⟨found, hfound, hready, -⟩ := exists_findNext highest hnonempty
        rw [hnext, Option.some.injEq] at hfound
        exact ⟨level, mem_occupied.mpr (hfound ▸ hready), hlow⟩

/-- Of at most two occupied levels, one is the given level and all turns of others are
turns of the second. -/
theorem eq_of_card_le_two {levels : Finset (Fin maxPrio)} (hcard : levels.card ≤ 2)
    {first second third : Fin maxPrio} (hfirst : first ∈ levels) (hsecond : second ∈ levels)
    (hthird : third ∈ levels) (hne : first ≠ second) (hother : third ≠ first) :
    third = second := by
  by_contra hthree
  have hsub : ({first, second, third} : Finset (Fin maxPrio)) ⊆ levels := by
    intro level hlevel
    simp only [Finset.mem_insert, Finset.mem_singleton] at hlevel
    rcases hlevel with rfl | rfl | rfl
    · exact hfirst
    · exact hsecond
    · exact hthird
  have hle := Finset.card_le_card hsub
  rw [Finset.card_eq_three.mpr ⟨first, second, third, hne, hother.symm, Ne.symm hthree, rfl⟩]
    at hle
  omega

theorem Policy.roundLaw (hpolicy : Policy prio state) (hcard : state.sched.occupied.card ≤ 2) :
    RoundLaw prio state.sched := by
  have hoccupied : ∀ {count before block after}, state.sched.turns prio count =
      some (before ++ block ++ after) → ∀ proc ∈ block,
        ∃ level ∈ state.sched.occupied, prio proc = level := fun hturns proc hproc =>
    hpolicy.turns_occupied hturns proc
      (List.mem_append_left _ (List.mem_append_right _ hproc))
  refine { window_full := ?_, others_served := ?_ }
  · intro count before window after hturns hlength level hlevel
    by_contra hnone
    simp only [not_exists, not_and] at hnone
    have hpos := hpolicy.slot_pos level
    have hsum := Finset.add_sum_erase _ state.sched.slot hlevel
    have hrest : 0 ≤ ∑ other ∈ state.sched.occupied.erase level, state.sched.slot other :=
      Finset.sum_nonneg fun other _ => le_of_lt (hpolicy.slot_pos other)
    cases window with
    | nil =>
        rw [List.length_nil] at hlength
        omega
    | cons head tail =>
        -- a window without the level is a block of the only other one, and the quota of the
        -- level itself is then left over
        obtain ⟨other, hother, hhead⟩ := hoccupied hturns head List.mem_cons_self
        have hne : other ≠ level := fun heq =>
          hnone head List.mem_cons_self (hhead.trans (congrArg Fin.val heq))
        have hall : ∀ proc ∈ head :: tail, prio proc = other := by
          intro proc hproc
          obtain ⟨third, hthird, hprio⟩ := hoccupied hturns proc hproc
          have hthirdNe : third ≠ level := fun heq =>
            hnone proc hproc (hprio.trans (congrArg Fin.val heq))
          rw [hprio, eq_of_card_le_two hcard hlevel hother hthird hne.symm hthirdNe]
        have hbound := hpolicy.block_le_of_turns hturns hall (mem_occupied.mp hlevel) hne.symm
        have hle := Finset.single_le_sum
          (fun place _ => le_of_lt (hpolicy.slot_pos place)) (Finset.mem_erase.mpr ⟨hne, hother⟩)
        omega
  · intro count before block between proc after level hturns hlength hblock hproc other hother hne
    by_contra hnone
    simp only [not_exists, not_and] at hnone
    have hturns' : state.sched.turns prio count =
        some (before ++ (block ++ between ++ [proc]) ++ after) := by
      rw [hturns]
      simp only [List.append_assoc, List.cons_append, List.nil_append]
    -- without a turn of the other level the block goes on up to the next turn of this one
    have hlevel : ∀ served ∈ block ++ between ++ [proc], prio served = level := by
      obtain ⟨first, hfirst, hprio⟩ := hoccupied hturns' proc (by simp)
      obtain rfl : first = level := Fin.ext (hprio.symm.trans hproc)
      intro served hserved
      rw [List.mem_append, List.mem_append] at hserved
      rcases hserved with (hserved | hserved) | hserved
      · exact hblock served hserved
      · obtain ⟨third, hthird, hthirdPrio⟩ := hoccupied hturns' served (by simp [hserved])
        have hthirdNe : third ≠ other := fun heq =>
          hnone served hserved (hthirdPrio.trans (congrArg Fin.val heq))
        rw [hthirdPrio, eq_of_card_le_two hcard hother hfirst hthird hne hthirdNe]
      · rw [List.mem_singleton.mp hserved]
        exact hproc
    -- and so it is longer than the quota
    have hbound := hpolicy.block_le_of_turns hturns' hlevel (mem_occupied.mp hother) hne
    rw [List.length_append, List.length_append, List.length_singleton] at hbound
    push_cast at hbound
    omega

/-- The round law holds in exactly the reachable states with at most two occupied levels. -/
theorem roundLaw_iff (calls : List (SchedCall Proc)) (state : Dispatcher Proc)
    (hrun : Runs.run (step prio) start calls = some state) :
    RoundLaw prio state.sched ↔ state.sched.occupied.card ≤ 2 := by
  have hpolicy : Policy prio state := policy_of_run hrun
  constructor
  · intro hlaw
    by_contra hcard
    exact hpolicy.not_roundLaw (Nat.lt_of_not_le hcard) hlaw
  · exact hpolicy.roundLaw

theorem roundLaw_iff_two_levels :
    ∃ state : Dispatcher Nat,
      Runs.run (step id) start [.addProc 138, .addProc 139] = some state ∧
        RoundLaw id state.sched := by
  have hcard : (Runs.run (step id) start [.addProc 138, .addProc 139]).map
      (fun state => state.sched.occupied.card) = some 2 := by
    decide +kernel
  obtain ⟨state, hrun, htwo⟩ := Option.map_eq_some_iff.mp hcard
  exact ⟨state, hrun, (roundLaw_iff _ state hrun).mpr (le_of_eq htwo)⟩

/-- With levels 137, 138 and 139 occupied, one of them is never served. -/
theorem not_roundLaw_three_levels :
    ∃ state : Dispatcher Nat,
      Runs.run (step id) start [.addProc 137, .addProc 138, .addProc 139] = some state ∧
        ¬ RoundLaw id state.sched := by
  have hcard : (Runs.run (step id) start [.addProc 137, .addProc 138, .addProc 139]).map
      (fun state => state.sched.occupied.card) = some 3 := by
    decide +kernel
  obtain ⟨state, hrun, hthree⟩ := Option.map_eq_some_iff.mp hcard
  exact ⟨state, hrun, (policy_of_run hrun).not_roundLaw (by omega)⟩

end Dispatcher

end SimpleOs
