import Mathlib.Algebra.Group.Action.Defs
import Mathlib.Data.Fintype.BigOperators
import SimpleOs.Foundation.Ranking
import SimpleOs.System.Completion

/-! # The pace of the simulator

In one slot every thread takes a bounded number of steps before it waits for the timer, and
the timer a bounded number before it advances the time. So the time never stands still: the
steps of a run are bounded by the slots that pass.
-/

namespace SimpleOs

/-! ## Steps within a slot -/

/-- The steps of `timer_routine` before it advances the time. -/
def TimerLocation.ahead (numDevices : Nat) : TimerLocation → Nat
  | loop => numDevices + 2
  | scan position _ _ => numDevices - position + 1
  | tick _ _ => 0
  | release position _ _ => numDevices - position + (numDevices + 3)
  | stopped => 0

/-- A bound for the steps of a CPU before it waits in `next_slot` or has left its loop. -/
def Cpu.ahead : Cpu → Nat
  | top _ _ => 5
  | putReady _ _ => 4
  | afterPut _ => 3
  | afterFree => 3
  | recheck _ _ => 2
  | stopped => 0

/-- The same for the loader. -/
def LoaderLocation.ahead : LoaderLocation → Nat
  | load => 4
  | addRunning => 3
  | addReady => 2
  | stopped => 0

theorem Cpu.ahead_le (cpu : Cpu) : cpu.ahead ≤ 5 := by
  cases cpu <;> simp only [ahead] <;> omega

theorem LoaderLocation.ahead_le (location : LoaderLocation) : location.ahead ≤ 5 := by
  cases location <;> simp only [ahead] <;> omega

/-- A step of `timer_routine` brings the next advance of the time closer, or is one. -/
theorem Timer.ahead_advance {numDevices : Nat} {timer next : Timer numDevices}
    (hadvance : timer.advance = some next) :
    next.ticks = timer.ticks ∧
        next.location.ahead numDevices < timer.location.ahead numDevices ∨
      next.ticks = timer.ticks + 1 ∧ next.location.ahead numDevices =
        timer.location.ahead numDevices + (2 * numDevices + 3) := by
  obtain ⟨location, time, ticks, timerStop, devices⟩ := timer
  unfold advance at hadvance
  cases location with
  | loop =>
      cases hadvance
      refine Or.inl ⟨rfl, ?_⟩
      cases timerStop <;> simp [TimerLocation.ahead]
  | scan position fsh event =>
      simp only at hadvance
      split at hadvance
      next hposition =>
        split at hadvance
        next =>
          cases hadvance
          refine Or.inl ⟨rfl, ?_⟩
          simp only [TimerLocation.ahead]
          omega
        next => cases hadvance
      next =>
        cases hadvance
        refine Or.inl ⟨rfl, ?_⟩
        simp [TimerLocation.ahead]
  | tick fsh event =>
      cases hadvance
      refine Or.inr ⟨rfl, ?_⟩
      simp only [TimerLocation.ahead]
      omega
  | release position fsh event =>
      simp only at hadvance
      split at hadvance
      next hposition =>
        cases hadvance
        refine Or.inl ⟨rfl, ?_⟩
        simp only [TimerLocation.ahead]
        omega
      next =>
        cases hadvance
        refine Or.inl ⟨rfl, ?_⟩
        simp only
        split <;> simp only [TimerLocation.ahead] <;> omega
  | stopped => cases hadvance

namespace Os

variable {config : Config} {os next : Os config.numCpus}

theorem ahead_of_fetching {cpu : Cpu} {timeLeft : Int} (hcpu : Fetching cpu timeLeft) :
    2 < cpu.ahead := by
  cases hcpu <;> simp [Cpu.ahead]

/-- A step of a CPU brings it closer to `next_slot`, or to the end of its loop. -/
theorem Move.cpu_ahead {leftover : Leftover} {id : Fin config.numCpus}
    (hmove : Move os (.cpu leftover id) next) :
    (if (next.cpus id).atHead = true then 1 else (next.cpus id).ahead) <
      (os.cpus id).ahead := by
  cases hmove with
  | idle hcpu => simp [hcpu, Cpu.atHead, Cpu.ahead]
  | get hcpu hready =>
      rw [cpus_setCpu_self]
      exact ahead_of_fetching hcpu
  | getNone hcpu =>
      rw [cpus_setCpu_self]
      exact ahead_of_fetching hcpu
  | finish hcpu => simp [hcpu, Cpu.atHead, Cpu.ahead]
  | put hcpu => simp [hcpu, Cpu.atHead, Cpu.ahead]
  | pass hcpu => simp [hcpu, Cpu.atHead, Cpu.ahead]
  | putReady hcpu => simp [hcpu, Cpu.atHead, Cpu.ahead]
  | stop hcpu => simp [hcpu, Cpu.atHead, Cpu.ahead]
  | again hcpu => simp [hcpu, Cpu.atHead, Cpu.ahead]
  | runPastEnd hcpu => simp [hcpu, Cpu.atHead, Cpu.ahead]
  | run hcpu => simp [hcpu, Cpu.atHead, Cpu.ahead]

/-- A step of the loader that adds no process brings it closer to the end of its loop. -/
theorem Move.loader_ahead {garbage : ListEnd} (hmove : Move os (.loader garbage) next)
    (hadds : os.loader.location ≠ .addReady) :
    next.loader.location.ahead < os.loader.location.ahead := by
  cases hmove with
  | load hloader => simp [hloader, LoaderLocation.ahead]
  | loaded hloader => simp [hloader, LoaderLocation.ahead]
  | addRunning hloader => simp [hloader, LoaderLocation.ahead]
  | addReady hloader => exact absurd (congrArg Loader.location hloader) hadds

/-- The bound for the thread of a device. -/
def ahead {numCpus : Nat} (os : Os numCpus) : Device numCpus → Nat
  | .cpu id => (os.cpus id).ahead
  | .loader => os.loader.location.ahead

theorem ahead_le {numCpus : Nat} (os : Os numCpus) (device : Device numCpus) :
    os.ahead device ≤ 5 := by
  cases device with
  | cpu id => exact Cpu.ahead_le _
  | loader => exact LoaderLocation.ahead_le _

end Os

namespace TimedOs

variable {numCpus : Nat}

/-- A bound for the steps of a thread before it waits in `next_slot` or has left its loop. -/
def ahead (state : TimedOs numCpus) (device : Device numCpus) : Nat :=
  if state.Free device then state.os.ahead device
  else if state.calling device then 1 else 0

/-- The share of a thread in the rank: the slots that it has not entered yet, the steps in its
slot, and `detach_event`. -/
def share (state : TimedOs numCpus) (device : Device numCpus) : Nat :=
  6 * (state.timer.ticks - (state.timerId device).completed) + state.ahead device +
    if (state.timerId device).fsh then 0 else 1

/-- The rank of a state: what can happen before the time advances. -/
def rank (state : TimedOs numCpus) : Nat :=
  state.timer.location.ahead (numCpus + 1) + (if state.timer.timerStop then 0 else 1) +
    ∑ device, state.share device

/-- What one advance of the time adds to the rank, with the step itself. -/
def price (numCpus : Nat) : Nat := 8 * numCpus + 12

variable {config : TimedConfig} {state next : TimedOs config.numCpus}

theorem ahead_of_free {device : Device config.numCpus} (hfree : state.Free device) :
    state.ahead device = state.os.ahead device := if_pos hfree

/-- The share of a thread depends on its own data only. -/
theorem share_congr {device : Device config.numCpus}
    (hos : next.os.ahead device = state.os.ahead device)
    (hticks : next.timer.ticks = state.timer.ticks)
    (htimerId : next.timerId device = state.timerId device)
    (hcalling : next.calling device = state.calling device) :
    next.share device = state.share device := by
  have hfree : next.Free device ↔ state.Free device := by
    unfold Free
    rw [htimerId, hcalling]
  unfold share ahead
  simp only [hfree, hos, hticks, htimerId, hcalling]

/-- A step of one thread lowers the rank when it lowers the share of the thread. -/
theorem rank_lt_of_share (hlocation : next.timer.location = state.timer.location)
    (hstop : next.timer.timerStop = state.timer.timerStop) (device : Device config.numCpus)
    (hothers : ∀ other, other ≠ device → next.share other = state.share other)
    (hshare : next.share device < state.share device) : next.rank < state.rank := by
  have hsum : ∑ other, next.share other < ∑ other, state.share other := by
    refine Finset.sum_lt_sum (fun other _ => ?_) ⟨device, Finset.mem_univ _, hshare⟩
    by_cases hsame : other = device
    · exact hsame ▸ hshare.le
    · exact (hothers other hsame).le
  unfold rank
  rw [hlocation, hstop]
  exact Nat.add_lt_add_left hsum _

/-- A thread after a step in its slot, which may lead it to `next_slot`. -/
theorem ahead_setCalling_self {os : Os config.numCpus} {device : Device config.numCpus}
    {calling : Bool} {turns : List (Turn config.numCpus)} {arrivals : List Nat}
    (hfree : state.Free device) :
    ({ state with os := os, turns := turns, arrivals := arrivals }.setCalling device
      calling).ahead device = if calling = true then 1 else os.ahead device := by
  unfold ahead
  simp only [free_setCalling_self hfree]
  change (if calling = false then os.ahead device
    else if Function.update state.calling device calling device = true then 1 else 0) = _
  rw [Function.update_self]
  cases calling <;> rfl

/-- A thread that takes a step in its slot lowers the rank. -/
theorem rank_setCalling_lt {os : Os config.numCpus} {device : Device config.numCpus}
    {calling : Bool} {turns : List (Turn config.numCpus)} {arrivals : List Nat}
    (hfree : state.Free device)
    (hothers : ∀ other, other ≠ device → os.ahead other = state.os.ahead other)
    (hahead : (if calling = true then 1 else os.ahead device) < state.os.ahead device) :
    ({ state with os := os, turns := turns, arrivals := arrivals }.setCalling device
      calling).rank < state.rank := by
  refine rank_lt_of_share rfl rfl device (fun other hother => ?_) ?_
  · exact share_congr (hothers other hother) rfl rfl (Function.update_of_ne hother _ _)
  · refine Nat.add_lt_add_right (Nat.add_lt_add_left ?_ _) _
    rw [ahead_setCalling_self hfree, ahead_of_free hfree]
    exact hahead

/-- A step of `next_slot` or `detach_event` lowers the rank when it lowers the share of the
thread. -/
theorem rank_setTimerId_lt {device : Device config.numCpus} {timerId : TimerId}
    {calling : Device config.numCpus → Bool}
    (hothers : ∀ other, other ≠ device → calling other = state.calling other)
    (hshare : ({ state.setTimerId device timerId with calling := calling } :
      TimedOs config.numCpus).share device < state.share device) :
    ({ state.setTimerId device timerId with calling := calling } :
      TimedOs config.numCpus).rank < state.rank :=
  rank_lt_of_share rfl rfl device (fun other hother => share_congr rfl rfl
    (timerId_setTimerId_of_ne state hother timerId) (hothers other hother)) hshare

/-- The share of a thread after its step of `next_slot` or `detach_event`. -/
theorem share_setTimerId {device : Device config.numCpus} {timerId : TimerId}
    {calling : Device config.numCpus → Bool} :
    ({ state.setTimerId device timerId with calling := calling } :
      TimedOs config.numCpus).share device =
        6 * (state.timer.ticks - timerId.completed) +
          (if timerId.phase = .working ∧ calling device = false then state.os.ahead device
            else if calling device then 1 else 0) + if timerId.fsh then 0 else 1 := by
  have hself : ({ state.setTimerId device timerId with calling := calling } :
      TimedOs config.numCpus).timerId device = timerId := timerId_setTimerId state device timerId
  unfold share ahead Free
  simp only [hself]
  rfl

theorem ahead_of_cpu_step {os : Os config.numCpus} {leftover : Leftover}
    {id : Fin config.numCpus}
    (hstep : state.os.step config.toConfig (.cpu leftover id) = some os)
    {other : Device config.numCpus} (hother : other ≠ .cpu id) :
    os.ahead other = state.os.ahead other := by
  cases other with
  | cpu other => exact congrArg Cpu.ahead (cpus_of_cpu_step hstep (Ne.symm hother))
  | loader =>
      exact congrArg (fun loader => loader.location.ahead) (Os.move_of_step hstep).cpu_frame.1

theorem ahead_of_loader_step {os : Os config.numCpus} {garbage : ListEnd}
    (hstep : state.os.step config.toConfig (.loader garbage) = some os)
    {other : Device config.numCpus} (hother : other ≠ .loader) :
    os.ahead other = state.os.ahead other := by
  cases other with
  | cpu other => exact congrArg Cpu.ahead (congrFun (Os.move_of_step hstep).loader_frame.1 other)
  | loader => exact absurd rfl hother

/-- A released thread has not entered all slots yet. -/
theorem Coupled.completed_lt (hcoupled : state.Coupled) {device : Device config.numCpus}
    (hreleased : (state.timerId device).phase = .waiting ∧ (state.timerId device).done = false) :
    (state.timerId device).completed < state.timer.ticks := by
  have haccount := (hcoupled.sync.devices device.position).account
  change (state.timerId device).completed + (state.timerId device).owed _ _ ≤ _ at haccount
  unfold TimerId.owed at haccount
  rw [if_pos hreleased] at haccount
  omega

/-- A step of `timer_routine` changes the shares only by the slot that it begins. -/
theorem Coupled.share_timer {timer : Timer (config.numCpus + 1)} (hcoupled : state.Coupled)
    (hadvance : state.timer.advance = some timer) (device : Device config.numCpus) :
    ({ state with timer := timer } : TimedOs config.numCpus).share device =
      state.share device + (timer.ticks - state.timer.ticks) * 6 := by
  have hle : (state.timerId device).completed ≤ state.timer.ticks :=
    Nat.le_of_add_right_le (hcoupled.sync.devices device.position).account
  have hticks := Timer.ticks_advance hadvance
  have hkept := Timer.devices_advance hadvance device.position
  have hphase : (timer.devices device.position).phase = (state.timerId device).phase := by
    rw [hkept]
    rfl
  have hfsh : (timer.devices device.position).fsh = (state.timerId device).fsh := by
    rw [hkept]
    rfl
  have hcompleted : (timer.devices device.position).completed =
      (state.timerId device).completed := by
    rw [hkept]
    rfl
  have hfree : ({ state with timer := timer } : TimedOs config.numCpus).Free device ↔
      state.Free device := and_congr_left fun _ => iff_of_eq (congrArg (· = _) hphase)
  have hsame : ({ state with timer := timer } : TimedOs config.numCpus).ahead device =
      state.ahead device := by
    unfold ahead
    simp only [hfree]
  unfold share
  rw [hsame]
  change 6 * (timer.ticks - (timer.devices device.position).completed) + _ +
    (if (timer.devices device.position).fsh = true then 0 else 1) = _
  rw [hfsh, hcompleted]
  omega

/-- Every step lowers the rank, except the one that advances the time. -/
theorem Coupled.rank_move (hcoupled : state.Coupled) (hmove : state.Move next) :
    next.timer.ticks = state.timer.ticks ∧ next.rank < state.rank ∨
      next.timer.ticks = state.timer.ticks + 1 ∧
        next.rank < state.rank + price config.numCpus := by
  cases hmove with
  | cpu hfree hstep =>
      exact Or.inl ⟨rfl, rank_setCalling_lt hfree (fun _ hother => ahead_of_cpu_step hstep hother)
        (Os.move_of_step hstep).cpu_ahead⟩
  | loader hfree htime hadds hstep =>
      exact Or.inl ⟨rfl, rank_setCalling_lt hfree
        (fun _ hother => ahead_of_loader_step hstep hother)
        ((Os.move_of_step hstep).loader_ahead hadds)⟩
  | adds hfree hadds hstep =>
      refine Or.inl ⟨rfl, rank_setCalling_lt hfree
        (fun _ hother => ahead_of_loader_step hstep hother) ?_⟩
      simp [Os.ahead, hadds, LoaderLocation.ahead]
  | hold hfree hearly =>
      refine Or.inl ⟨rfl, rank_setCalling_lt hfree (fun _ _ => rfl) ?_⟩
      simp [Os.ahead, (early_iff.mp hearly).1, LoaderLocation.ahead]
  | @enter device hcalling hworking =>
      refine Or.inl ⟨rfl, rank_setTimerId_lt
        (fun other hother => Function.update_of_ne hother _ _) ?_⟩
      have hpaused : ¬ state.Free device := not_free_iff.mpr (Or.inr hcalling)
      change ({ state.setTimerId device _ with calling := _ } : TimedOs config.numCpus).share
        device < _
      rw [share_setTimerId]
      have hnow : (state.setCalling device false).calling device = false :=
        Function.update_self ..
      unfold share ahead
      simp [hpaused, hcalling, hnow]
  | @leave device hreleased =>
      refine Or.inl ⟨rfl, rank_setTimerId_lt (fun _ _ => rfl) ?_⟩
      have hlt := hcoupled.completed_lt hreleased
      have hahead := state.os.ahead_le device
      rw [share_setTimerId]
      unfold share
      change 6 * (_ - ((state.timerId device).completed + 1)) + _ + _ < _
      refine Nat.add_lt_add_right ?_ _
      split
      next => omega
      next => split <;> omega
  | @detach device hexited hattached =>
      refine Or.inl ⟨rfl, rank_setTimerId_lt (fun _ _ => rfl) ?_⟩
      rw [share_setTimerId]
      unfold share
      rw [hattached]
      exact Nat.lt_succ_self _
  | @timer timer hadvance =>
      have hstop := Timer.timerStop_advance hadvance
      have hshare := hcoupled.share_timer hadvance
      unfold rank price
      simp only [hshare, hstop, Finset.sum_add_distrib, Finset.sum_const, Finset.card_univ]
      rw [Device.card, smul_eq_mul]
      rcases Timer.ahead_advance hadvance with ⟨hticks, hahead⟩ | ⟨hticks, hahead⟩
      · refine Or.inl ⟨hticks, ?_⟩
        rw [hticks, Nat.sub_self]
        omega
      · refine Or.inr ⟨hticks, ?_⟩
        rw [hticks, Nat.add_sub_cancel_left]
        omega
  | stop hdetached hrunning =>
      refine Or.inl ⟨rfl, ?_⟩
      unfold rank
      rw [hrunning]
      exact Nat.add_lt_add_right (Nat.lt_succ_self _) _

/-! ## Whole runs -/

/-- The clock of the timer pays for the steps. -/
theorem paid (config : TimedConfig) : Ranking.Paid (step config) Coupled rank
    (fun state => state.timer.ticks) (price config.numCpus) where
  keeps _ _ _ hcoupled hstep := hcoupled.move (move_of_step hstep)
  pays state event next hcoupled hstep := by
    rcases hcoupled.rank_move (move_of_step hstep) with ⟨hticks, hrank⟩ | ⟨hticks, hrank⟩
    · rw [hticks]
      omega
    · rw [hticks, Nat.mul_succ]
      omega

theorem rank_start (mm : MmStruct) (mram activeMswp : MemphyStruct) :
    (start mm mram activeMswp : TimedOs config.numCpus).rank = 7 * config.numCpus + 9 := by
  have hsum : ∑ device, (start mm mram activeMswp : TimedOs config.numCpus).share device =
      5 + config.numCpus * 6 := by
    rw [← (Device.equivOption config.numCpus).sum_comp, Fintype.sum_option]
    change 5 + ∑ id : Fin config.numCpus, 6 = _
    rw [Finset.sum_const, Finset.card_univ, Fintype.card_fin, smul_eq_mul]
  unfold rank
  rw [hsum]
  change config.numCpus + 1 + 2 + 1 + _ = _
  omega

/-- The time never stands still: a run has at most as many steps as the slots that have passed
pay for, whatever the order of the steps. -/
theorem run_length_le (config : TimedConfig) (mm : MmStruct) (mram activeMswp : MemphyStruct)
    (events : List (TimedEvent config.numCpus)) (state : TimedOs config.numCpus)
    (hrun : Runs.run (step config) (start mm mram activeMswp) events = some state) :
    events.length ≤ 7 * config.numCpus + 9 + (8 * config.numCpus + 12) * state.timer.ticks := by
  have hlength := (paid config).length_add_le (coupled_start mm mram activeMswp) hrun
  rw [rank_start] at hlength
  exact (Nat.le_add_right _ _).trans ((Nat.le_add_right _ _).trans hlength)

/-- A schedule in which the CPU frees the process before the loader has set `done`, and then
looks for work in one slot after the other. -/
def endlessEvents (slots : Nat) : List (TimedEvent oneJob.numCpus) :=
  let id : Fin oneJob.numCpus := ⟨0, Nat.one_pos⟩
  let cpu : TimedEvent oneJob.numCpus := .cpu .zero id
  let loader : TimedEvent oneJob.numCpus := .loader .null
  [cpu, .hold] ++ oneJobTick ++ [loader, loader, loader, cpu, cpu] ++ oneJobTick ++
    [cpu, cpu, cpu, loader, .detach .loader] ++
      (List.replicate slots
        ([.enter (.cpu id)] ++ List.replicate 8 .timer ++ [.leave (.cpu id), cpu])).flatten

/-- Eighty steps, in which the time advances six times. -/
theorem run_length_le_one_job :
    ∃ state, Runs.run (step oneJob)
        (start (initMm .null) singleProcess.mram singleProcess.activeMswp) (endlessEvents 4) =
          some state ∧
      (endlessEvents 4).length = 80 ∧ state.timer.ticks = 6 ∧
        (endlessEvents 4).length ≤ 7 * oneJob.numCpus + 9 +
          (8 * oneJob.numCpus + 12) * state.timer.ticks := by
  have hfinal : (Runs.run (step oneJob)
      (start (initMm .null) singleProcess.mram singleProcess.activeMswp) (endlessEvents 4)).map
        (fun state => state.timer.ticks) = some 6 := by
    decide +kernel
  obtain ⟨state, hrun, hticks⟩ := Option.map_eq_some_iff.mp hfinal
  exact ⟨state, hrun, rfl, hticks, run_length_le oneJob _ _ _ _ state hrun⟩

/-- Every process is freed within a number of steps that the configuration fixes, whatever the
order of the steps. -/
theorem run_freed_of_length (config : TimedConfig) (hfeasible : config.Feasible) (mm : MmStruct)
    (mram activeMswp : MemphyStruct) (events : List (TimedEvent config.numCpus))
    (state : TimedOs config.numCpus)
    (hrun : Runs.run (step config) (start mm mram activeMswp) events = some state)
    (hlong : 7 * config.numCpus + 9 + (8 * config.numCpus + 12) *
      (config.lastArrival + config.workload + 1) < events.length) :
    ∀ proc < config.numProcesses, proc ∈ state.os.freed := by
  have hcoupled : (start mm mram activeMswp : TimedOs config.numCpus).Coupled :=
    coupled_start mm mram activeMswp
  rw [← rank_start mm mram activeMswp] at hlong
  have hticks := (paid config).clock_lt hcoupled hrun hlong
  have hbusy := busy_of_visited hfeasible mm mram activeMswp events state
    (Runs.mem_visited_iff.mpr ⟨events, List.prefix_rfl, hrun⟩)
  intro proc hproc
  refine hbusy.freed_of_ticks hfeasible.numProcesses_le ?_ hproc
  omega

theorem run_freed_of_length_one_job :
    ∃ state, Runs.run (step oneJob)
        (start (initMm .null) singleProcess.mram singleProcess.activeMswp) (endlessEvents 4) =
          some state ∧ ∀ proc < oneJob.numProcesses, proc ∈ state.os.freed := by
  have hfinal : (Runs.run (step oneJob)
      (start (initMm .null) singleProcess.mram singleProcess.activeMswp)
        (endlessEvents 4)).isSome = true := by
    decide +kernel
  obtain ⟨state, hrun⟩ := Option.isSome_iff_exists.mp hfinal
  have hlong : 7 * oneJob.numCpus + 9 + (8 * oneJob.numCpus + 12) *
      (oneJob.lastArrival + oneJob.workload + 1) < (endlessEvents 4).length := by
    decide +kernel
  exact ⟨state, hrun, run_freed_of_length oneJob feasible_one_job _ _ _ _ state hrun hlong⟩

end TimedOs

end SimpleOs
