import SimpleOs.System.Shutdown
import SimpleOs.System.Turns

/-! # Start times

The loader adds its processes in the order of the configuration, one in a slot at most, and
each not before its start time. The timer makes that exact: the slot in which a process is
added is the first one that this allows.
-/

namespace SimpleOs

namespace TimedConfig

/-- The slot in which a process is to be added: at its start time, or in the slot after the
process before it, whichever is later. -/
def arrival (config : TimedConfig) : Nat → Nat
  | 0 => (config.startTime 0).toNat
  | i + 1 => max (config.startTime (i + 1)).toNat (config.arrival i + 1)

/-- The first slot in which the loader can look at a process. -/
def earliest (config : TimedConfig) : Nat → Nat
  | 0 => 0
  | i + 1 => config.arrival i + 1

variable {config : TimedConfig}

theorem arrival_eq (i : Nat) :
    config.arrival i = max (config.startTime i).toNat (config.earliest i) := by
  cases i with
  | zero => exact (Nat.max_eq_left (Nat.zero_le _)).symm
  | succ i => rfl

theorem arrival_lt_of_lt {i j : Nat} (hlt : i < j) : config.arrival i < config.arrival j := by
  induction j with
  | zero => cases hlt
  | succ j ih =>
      have hstep : config.arrival j < config.arrival (j + 1) := by
        simp only [arrival]
        omega
      rcases Nat.lt_succ_iff_lt_or_eq.mp hlt with hbefore | rfl
      · exact (ih hbefore).trans hstep
      · exact hstep

/-- A process arrives as soon as its own start time and those of the processes before it
allow, with one slot for each. -/
theorem arrival_le_iff {i slot : Nat} :
    config.arrival i ≤ slot ↔ ∀ j ≤ i, (config.startTime j).toNat + (i - j) ≤ slot := by
  induction i generalizing slot with
  | zero =>
      simp only [arrival, Nat.le_zero, forall_eq, Nat.sub_self, Nat.add_zero]
  | succ i ih =>
      simp only [arrival, Nat.max_le]
      constructor
      · rintro ⟨hstart, hbefore⟩ j hj
        rcases Nat.lt_or_eq_of_le hj with hlt | rfl
        · have hle := (@ih (slot - 1)).mp (by omega) j (Nat.le_of_lt_succ hlt)
          omega
        · omega
      · intro hall
        have hself := hall (i + 1) (Nat.le_refl _)
        have hbefore : config.arrival i ≤ slot - 1 := ih.mpr fun j hj => by
          have hle := hall j (hj.trans (Nat.le_succ i))
          omega
        have hpositive := hall i (Nat.le_succ i)
        omega

end TimedConfig

namespace TimedOs

variable {config : TimedConfig} {state next : TimedOs config.numCpus}

/-- Which slot the loader is in, by where it is in its loop. -/
def LoaderOnTime (config : TimedConfig) (slot i : Nat) : LoaderLocation → Prop
  | .load => config.earliest i ≤ slot ∧ (i < config.numProcesses → slot ≤ config.arrival i)
  | .addRunning => i < config.numProcesses ∧ slot = config.arrival i
  | .addReady => i < config.numProcesses ∧ slot = config.arrival i
  | .stopped => config.earliest i ≤ slot ∧ i = config.numProcesses

theorem LoaderOnTime.arrival_lt {slot i proc : Nat} {location : LoaderLocation}
    (hloader : LoaderOnTime config slot i location) (hadded : proc < i) :
    config.arrival proc < slot := by
  have hearliest : config.earliest i ≤ slot → config.arrival proc < slot := by
    intro hle
    cases i with
    | zero => cases hadded
    | succ i =>
        have hlast : config.arrival proc ≤ config.arrival i := by
          rcases Nat.lt_or_eq_of_le (Nat.le_of_lt_succ hadded) with hlt | rfl
          · exact (TimedConfig.arrival_lt_of_lt hlt).le
          · exact Nat.le_refl _
        exact hlast.trans_lt hle
  cases location with
  | load => exact hearliest hloader.1
  | addRunning => exact (TimedConfig.arrival_lt_of_lt hadded).trans_eq hloader.2.symm
  | addReady => exact (TimedConfig.arrival_lt_of_lt hadded).trans_eq hloader.2.symm
  | stopped => exact hearliest hloader.1

/-- Every process was added in its slot, and the loader is on time for the next. -/
structure OnTime (state : TimedOs config.numCpus) : Prop where
  paced : state.Paced
  loader : LoaderOnTime config (state.slotOf .loader) state.os.loader.i state.os.loader.location
  arrivals_eq : state.arrivals = (List.range state.os.loader.i).map config.arrival
  turn_ge : ∀ turn ∈ state.turns, config.arrival turn.proc ≤ turn.slot

theorem onTime_start (mm : MmStruct) (mram activeMswp : MemphyStruct) :
    (start mm mram activeMswp : TimedOs config.numCpus).OnTime where
  paced := paced_start mm mram activeMswp
  loader := ⟨Nat.le_refl 0, fun _ => Nat.zero_le _⟩
  arrivals_eq := rfl
  turn_ge := nofun

/-! ## What it says about the processes -/

/-- A process that was added has arrived. -/
theorem OnTime.arrival_le (hontime : state.OnTime) {proc : Nat}
    (hadded : proc < state.os.loader.i) : config.arrival proc ≤ state.timer.ticks :=
  Nat.le_of_lt_succ
    ((hontime.loader.arrival_lt hadded).trans_le (hontime.paced.coupled.slotOf_le .loader))

/-- When the loader has stopped, all its processes arrived in earlier slots. -/
theorem OnTime.arrival_lt_of_stopped (hontime : state.OnTime)
    (hstopped : state.os.loader.location = .stopped) {proc : Nat}
    (hproc : proc < config.numProcesses) : config.arrival proc < state.timer.ticks := by
  have hloader := hontime.loader
  rw [hstopped] at hloader
  have hlt := hloader.arrival_lt (hloader.2 ▸ hproc)
  have hfree : state.Free .loader := by
    by_contra hpaused
    have hload := hontime.paced.coupled.loader_paused hpaused
    rw [hstopped] at hload
    cases hload
  exact hlt.trans_le (hontime.paced.coupled.slotOf_le_of_free hfree)

/-- A process that was not added is not late. -/
theorem OnTime.added_of_arrival_lt (hontime : state.OnTime) {proc : Nat}
    (hproc : proc < config.numProcesses) (harrival : config.arrival proc < state.timer.ticks) :
    proc < state.os.loader.i := by
  by_contra hnot
  have hi : state.os.loader.i ≤ proc := Nat.le_of_not_lt hnot
  have hlater : config.arrival state.os.loader.i ≤ config.arrival proc := by
    rcases Nat.lt_or_eq_of_le hi with hlt | heq
    · exact (TimedConfig.arrival_lt_of_lt hlt).le
    · rw [heq]
  have hloader := hontime.loader
  have hlate : state.slotOf .loader ≤ config.arrival state.os.loader.i →
      state.os.loader.location = .stopped := by
    intro hslot
    by_contra hrunning
    have hticks := hontime.paced.coupled.ticks_le_slotOf (exited_loader_of_ne hrunning)
    omega
  have hstopped : state.os.loader.location = .stopped := by
    cases hlocation : state.os.loader.location with
    | load =>
        rw [hlocation] at hloader hlate
        exact hlate (hloader.2 (hi.trans_lt hproc))
    | addRunning =>
        rw [hlocation] at hloader hlate
        exact hlate hloader.2.le
    | addReady =>
        rw [hlocation] at hloader hlate
        exact hlate hloader.2.le
    | stopped => rfl
  rw [hstopped] at hloader
  exact absurd hproc (Nat.not_lt.mpr (hloader.2 ▸ hi))

/-! ## Every step -/

/-- The loader that looks at a process reads the time exactly, unless `_time` has wrapped
around before the process arrives. -/
theorem OnTime.lt_startTime_iff (hontime : state.OnTime) (hfree : state.Free .loader)
    (hload : state.os.loader.location = .load)
    (hi : state.os.loader.i < config.numProcesses)
    (hwrap : config.arrival state.os.loader.i < 2 ^ 64) :
    state.timer.time < config.startTime state.os.loader.i ↔
      state.slotOf .loader < (config.startTime state.os.loader.i).toNat := by
  have hloader := hontime.loader
  rw [hload] at hloader
  have hslot := hontime.paced.coupled.slotOf_of_free hfree (exited_loader_of_ne (hload ▸ nofun))
  have hle := hloader.2 hi
  rw [BitVec.lt_def, hontime.paced.coupled.sync.time_eq, BitVec.toNat_ofNat,
    Nat.mod_eq_of_lt (by omega), hslot]

theorem OnTime.cpu_step {leftover : Leftover} {id : Fin config.numCpus} {os : Os config.numCpus}
    (hontime : state.OnTime)
    (hstep : state.os.step config.toConfig (.cpu leftover id) = some os)
    (hpaced : (state.afterCpu id os).Paced) :
    (state.afterCpu id os).OnTime := by
  have hloader : os.loader = state.os.loader := (Os.move_of_step hstep).cpu_frame.1
  refine
    { paced := hpaced, loader := ?_, arrivals_eq := ?_, turn_ge := fun turn hturn => ?_ }
  · have hslot : (state.afterCpu id os).slotOf .loader = state.slotOf .loader :=
      slotOf_afterCpu_of_ne nofun
    rw [hslot]
    change LoaderOnTime config _ os.loader.i os.loader.location
    rw [hloader]
    exact hontime.loader
  · change state.arrivals = (List.range os.loader.i).map config.arrival
    rw [hloader]
    exact hontime.arrivals_eq
  · rcases List.mem_append.mp hturn with hold | hnew
    · exact hontime.turn_ge turn hold
    · obtain ⟨timeLeft, hcpu, hslot, rfl⟩ := turn_of_mem hnew
      rw [hslot]
      refine hontime.arrival_le (hontime.paced.coupled.owned.added_of_held (Or.inl ?_))
      exact Os.mem_held.mpr ⟨turn.id, by rw [hcpu]; rfl⟩

/-- A step of the loader that is not the last for its process. -/
theorem OnTime.loader_step {garbage : ListEnd} {os : Os config.numCpus}
    (hwrap : ∀ i < config.numProcesses, config.arrival i < 2 ^ 64) (hontime : state.OnTime)
    (hfree : state.Free .loader) (htime : state.early config = false)
    (hadds : state.os.loader.location ≠ .addReady)
    (hstep : state.os.step config.toConfig (.loader garbage) = some os)
    (hpaced : ({ state with os := os }.setCalling .loader false).Paced) :
    ({ state with os := os }.setCalling .loader false).OnTime := by
  have hloader := hontime.loader
  have hslot : ({ state with os := os }.setCalling .loader false).slotOf .loader =
      state.slotOf .loader := slotOf_setCalling_self hfree
  suffices hmoved : os.loader.i = state.os.loader.i ∧
      LoaderOnTime config (state.slotOf .loader) state.os.loader.i os.loader.location by
    refine
      { paced := hpaced, loader := ?_, arrivals_eq := ?_, turn_ge := hontime.turn_ge }
    · rw [hslot]
      change LoaderOnTime config _ os.loader.i os.loader.location
      rw [hmoved.1]
      exact hmoved.2
    · change state.arrivals = (List.range os.loader.i).map config.arrival
      rw [hmoved.1]
      exact hontime.arrivals_eq
  change state.os.loaderStep config.toConfig garbage = some os at hstep
  unfold Os.loaderStep at hstep
  cases hlocation : state.os.loader.location with
  | load =>
      rw [hlocation] at hloader
      simp only [hlocation] at hstep
      split at hstep
      next hi =>
        cases hstep
        refine ⟨rfl, hi, Nat.le_antisymm (hloader.2 hi) ?_⟩
        -- the loader has looked at the time and does not wait
        have hnot := mt early_iff.mpr (Bool.eq_false_iff.mp htime)
        simp only [hlocation, hi, true_and] at hnot
        rw [hontime.lt_startTime_iff hfree hlocation hi (hwrap _ hi)] at hnot
        rw [TimedConfig.arrival_eq]
        exact max_le (Nat.le_of_not_lt hnot) hloader.1
      next hi =>
        cases hstep
        exact ⟨rfl, hloader.1,
          Nat.le_antisymm hontime.paced.coupled.owned.i_le (Nat.le_of_not_lt hi)⟩
  | addRunning =>
      rw [hlocation] at hloader
      simp only [hlocation] at hstep
      cases hstep
      exact ⟨rfl, hloader⟩
  | addReady => exact absurd hlocation hadds
  | stopped =>
      simp only [hlocation] at hstep
      cases hstep

/-- The step that adds a process, in its slot. -/
theorem OnTime.adds_step {garbage : ListEnd} {os : Os config.numCpus} (hontime : state.OnTime)
    (hfree : state.Free .loader) (hadds : state.os.loader.location = .addReady)
    (hstep : state.os.step config.toConfig (.loader garbage) = some os)
    (hpaced : ({ state with
      os := os, arrivals := state.arrivals ++ [state.timer.ticks] }.setCalling
        .loader true).Paced) :
    ({ state with
      os := os, arrivals := state.arrivals ++ [state.timer.ticks] }.setCalling
        .loader true).OnTime := by
  have hloader := hontime.loader
  rw [hadds] at hloader
  obtain ⟨hi, hslot⟩ := hloader
  have hnow := hontime.paced.coupled.slotOf_of_free hfree (exited_loader_of_ne (hadds ▸ nofun))
  have hmoved : os.loader = { location := .load, i := state.os.loader.i + 1 } := by
    have hmove := Os.move_of_step hstep
    cases hmove with
    | load hloader => rw [hloader] at hadds; cases hadds
    | loaded hloader => rw [hloader] at hadds; cases hadds
    | addRunning hloader => rw [hloader] at hadds; cases hadds
    | addReady hloader hadd => rw [hloader]
  refine
    { paced := hpaced, loader := ?_, arrivals_eq := ?_, turn_ge := hontime.turn_ge }
  · rw [slotOf_setCalling_self hfree, hslot]
    change LoaderOnTime config _ os.loader.i os.loader.location
    rw [hmoved]
    refine ⟨Nat.le_refl _, fun _ => ?_⟩
    exact Nat.le_max_right _ _
  · change state.arrivals ++ [state.timer.ticks] = (List.range os.loader.i).map config.arrival
    rw [hmoved, hontime.arrivals_eq, ← hnow, hslot, List.range_succ, List.map_append]
    rfl

theorem OnTime.hold_step (hwrap : ∀ i < config.numProcesses, config.arrival i < 2 ^ 64)
    (hontime : state.OnTime) (hfree : state.Free .loader) (hearly : state.early config = true)
    (hpaced : (state.setCalling .loader true).Paced) :
    (state.setCalling .loader true).OnTime where
  paced := hpaced
  loader := by
    obtain ⟨hlocation, hi, htime⟩ := early_iff.mp hearly
    have hslot : (state.setCalling .loader true).slotOf .loader = state.slotOf .loader + 1 :=
      slotOf_setCalling_self hfree
    have hloader := hontime.loader
    rw [hontime.lt_startTime_iff hfree hlocation hi (hwrap _ hi)] at htime
    rw [hslot]
    change LoaderOnTime config _ state.os.loader.i state.os.loader.location
    rw [hlocation] at hloader ⊢
    refine ⟨hloader.1.trans (Nat.le_succ _), fun _ => ?_⟩
    rw [TimedConfig.arrival_eq]
    exact htime.trans_le (Nat.le_max_left _ _)
  arrivals_eq := hontime.arrivals_eq
  turn_ge := hontime.turn_ge

theorem OnTime.act (hwrap : ∀ i < config.numProcesses, config.arrival i < 2 ^ 64)
    (hontime : state.OnTime) (hpaced : next.Paced) (hact : state.Act next) : next.OnTime := by
  cases hact with
  | cpu hfree hstep => exact hontime.cpu_step hstep hpaced
  | loader hfree htime hadds hstep =>
      exact hontime.loader_step hwrap hfree htime hadds hstep hpaced
  | adds hfree hadds hstep => exact hontime.adds_step hfree hadds hstep hpaced
  | hold hfree hearly => exact hontime.hold_step hwrap hfree hearly hpaced
  | clock hos hturns harrivals hslots hticks =>
      refine
        { paced := hpaced, loader := ?_, arrivals_eq := ?_, turn_ge := hturns ▸ hontime.turn_ge }
      · rw [hslots, hos]
        exact hontime.loader
      · rw [harrivals, hos]
        exact hontime.arrivals_eq

theorem OnTime.move (hwrap : ∀ i < config.numProcesses, config.arrival i < 2 ^ 64)
    (hontime : state.OnTime) (hmove : state.Move next) : next.OnTime :=
  hontime.act hwrap (hontime.paced.move hmove) (hontime.paced.coupled.act hmove)

/-! ## The timetable -/

/-- The timetable. The processes added so far were added in exactly their slots, every process
whose slot has passed is among them, and no process is there or runs before its slot. -/
structure Punctual (state : TimedOs config.numCpus) : Prop where
  arrivals_eq : state.arrivals = (List.range state.os.loader.i).map config.arrival
  added : ∀ proc < config.numProcesses, config.arrival proc < state.timer.ticks →
    proc < state.os.loader.i
  not_early : ∀ proc, (∃ level, proc ∈ state.os.sched.ready level) ∨ proc ∈ state.os.held ∨
    proc ∈ state.os.freed → ∀ before ≤ proc,
      (config.startTime before).toNat + (proc - before) ≤ state.timer.ticks
  turn_ge : ∀ turn ∈ state.turns, config.arrival turn.proc ≤ turn.slot
  executed_le : ∀ proc, (state.os.pcbs proc).pc ≤
    state.timer.ticks + 1 - config.arrival proc

theorem OnTime.punctual (hontime : state.OnTime) : state.Punctual where
  arrivals_eq := hontime.arrivals_eq
  added _ hproc harrival := hontime.added_of_arrival_lt hproc harrival
  not_early proc hplace := by
    have howned := hontime.paced.coupled.owned
    refine TimedConfig.arrival_le_iff.mp (hontime.arrival_le ?_)
    rcases hplace with ⟨level, hready⟩ | hheld
    · exact howned.added_of_ready hready
    · exact howned.added_of_held hheld
  turn_ge := hontime.turn_ge
  executed_le proc := by
    refine (hontime.paced.pc_le proc).trans ?_
    have hlength := length_le_of_nodup (config.arrival proc) state.timer.ticks
      (hontime.paced.nodup_turnsOf proc) fun slot hslot => by
        obtain ⟨turn, hturn, rfl⟩ := List.mem_map.mp hslot
        obtain ⟨hmem, hproc⟩ := List.mem_filter.mp hturn
        exact ⟨of_decide_eq_true hproc ▸ hontime.turn_ge turn hmem, hontime.paced.slot_le hmem⟩
    rwa [List.length_map] at hlength

/-- The timetable is kept in every state of every run, as long as `_time` does not wrap around
before the last process is added. -/
theorem visited_punctual (config : TimedConfig)
    (hwrap : ∀ proc < config.numProcesses, config.arrival proc < 2 ^ 64) (mm : MmStruct)
    (mram activeMswp : MemphyStruct) (events : List (TimedEvent config.numCpus)) :
    ∀ state ∈ Runs.visited (step config) (start mm mram activeMswp) events, state.Punctual := by
  intro state hstate
  exact (Runs.visited_invariant OnTime (fun _ => True)
    (fun _ _ _ _ hontime hstep => hontime.move hwrap (move_of_step hstep)) (fun _ _ => trivial)
    (onTime_start mm mram activeMswp) state hstate).punctual

theorem arrival_lt_one_job : ∀ proc < oneJob.numProcesses, oneJob.arrival proc < 2 ^ 64 := by
  intro proc hproc
  have hzero : proc = 0 := Nat.lt_one_iff.mp hproc
  subst hzero
  decide

/-- The process is added in the second slot. -/
theorem visited_punctual_one_job :
    ∃ state, Runs.run (step oneJob)
        (start (initMm .null) singleProcess.mram singleProcess.activeMswp) oneJobEvents =
          some state ∧ state.arrivals = [1] ∧ state.Punctual := by
  have hfinal : (Runs.run (step oneJob)
      (start (initMm .null) singleProcess.mram singleProcess.activeMswp) oneJobEvents).map
        (fun state => state.arrivals) = some [1] := by
    decide +kernel
  obtain ⟨state, hrun, harrivals⟩ := Option.map_eq_some_iff.mp hfinal
  exact ⟨state, hrun, harrivals, visited_punctual oneJob arrival_lt_one_job _ _ _ _ state
    (Runs.mem_visited_iff.mpr ⟨_, List.prefix_rfl, hrun⟩)⟩

end TimedOs

end SimpleOs
