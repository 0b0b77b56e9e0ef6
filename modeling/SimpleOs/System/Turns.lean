import Mathlib.Data.List.ProdSigma
import SimpleOs.System.Slots

/-! # One turn a slot

A CPU that has called `run` is on its way to `next_slot` or waits there, and holds the process
that ran, until the time has advanced. So a CPU makes one call in a slot, and a process runs
once in a slot, also when it is put back and taken over by another CPU.
-/

namespace SimpleOs

namespace Os

variable {config : Config} {os next : Os config.numCpus} {leftover : Leftover}
  {id : Fin config.numCpus}

/-- After `run` the CPU is at the head of its loop and still holds the process. The ready
queues are as they were, and nothing was freed. -/
theorem Move.cpu_of_recheck {proc : Nat} {timeLeft : Int}
    (hmove : Move os (.cpu leftover id) next)
    (hrecheck : os.cpus id = .recheck (some proc) timeLeft) :
    (∃ left, next.cpus id = .top (some proc) left) ∧
      (∀ level, next.sched.ready level = os.sched.ready level) ∧ next.freed = os.freed := by
  cases hmove with
  | get hcpu => rw [hrecheck] at hcpu; cases hcpu
  | getNone hcpu => rw [hrecheck] at hcpu; cases hcpu
  | runPastEnd hcpu halive hend =>
      cases hrecheck.symm.trans hcpu
      exact ⟨⟨_, Function.update_self ..⟩, fun _ => rfl, rfl⟩
  | run hcpu halive hins hexecute =>
      cases hrecheck.symm.trans hcpu
      exact ⟨⟨_, Function.update_self ..⟩, fun _ => rfl, rfl⟩
  | idle hcpu => rw [hrecheck] at hcpu; cases hcpu
  | finish hcpu => rw [hrecheck] at hcpu; cases hcpu
  | put hcpu => rw [hrecheck] at hcpu; cases hcpu
  | pass hcpu => rw [hrecheck] at hcpu; cases hcpu
  | putReady hcpu => rw [hrecheck] at hcpu; cases hcpu
  | stop hcpu => rw [hrecheck] at hcpu; cases hcpu
  | again hcpu => rw [hrecheck] at hcpu; cases hcpu

/-- A step of a CPU moves at most the `pc` of the process that it runs, and moves it while
there is code left. -/
theorem Move.pcbs_cpu (hmove : Move os (.cpu leftover id) next) :
    (∃ proc timeLeft, os.cpus id = .recheck (some proc) timeLeft ∧
      (os.pcbs proc).pc < (os.pcbs proc).code.length ∧
        next.pcbs = Function.update os.pcbs proc
          { os.pcbs proc with pc := (os.pcbs proc).pc + 1 }) ∨
    next.pcbs = os.pcbs ∧ ∀ proc timeLeft, os.cpus id = .recheck (some proc) timeLeft →
      (os.pcbs proc).code.length ≤ (os.pcbs proc).pc := by
  have hother : ∀ {cpu : Cpu}, os.cpus id = cpu → (∀ proc timeLeft, cpu ≠ .recheck (some proc)
      timeLeft) → ∀ proc timeLeft, os.cpus id = .recheck (some proc) timeLeft →
        (os.pcbs proc).code.length ≤ (os.pcbs proc).pc :=
    fun hcpu hne proc timeLeft hrecheck => absurd (hcpu.symm.trans hrecheck) (hne proc timeLeft)
  cases hmove with
  | get hcpu =>
      refine Or.inr ⟨rfl, fun proc timeLeft hrecheck => ?_⟩
      rw [hrecheck] at hcpu
      cases hcpu
  | getNone hcpu =>
      refine Or.inr ⟨rfl, fun proc timeLeft hrecheck => ?_⟩
      rw [hrecheck] at hcpu
      cases hcpu
  | runPastEnd hcpu halive hend =>
      refine Or.inr ⟨rfl, fun proc timeLeft hrecheck => ?_⟩
      cases hcpu.symm.trans hrecheck
      exact hend
  | run hcpu halive hins hexecute =>
      exact Or.inl ⟨_, _, hcpu, (List.getElem?_eq_some_iff.mp hins).1, rfl⟩
  | idle hcpu => exact Or.inr ⟨rfl, hother hcpu nofun⟩
  | finish hcpu => exact Or.inr ⟨rfl, hother hcpu nofun⟩
  | put hcpu => exact Or.inr ⟨rfl, hother hcpu nofun⟩
  | pass hcpu => exact Or.inr ⟨rfl, hother hcpu nofun⟩
  | putReady hcpu => exact Or.inr ⟨rfl, hother hcpu nofun⟩
  | stop hcpu => exact Or.inr ⟨rfl, hother hcpu nofun⟩
  | again hcpu => exact Or.inr ⟨rfl, hother hcpu nofun⟩

/-- A step of the loader moves no `pc` but that of the process it loads. -/
theorem Move.pc_loader {garbage : ListEnd} (hmove : Move os (.loader garbage) next) (proc : Nat) :
    (next.pcbs proc).pc ≤ (os.pcbs proc).pc := by
  cases hmove with
  | @load _ i hloader hi =>
      change (Function.update os.pcbs i (newPcb config i) proc).pc ≤ _
      by_cases hsame : proc = i
      · subst hsame
        rw [Function.update_self]
        exact Nat.zero_le _
      · rw [Function.update_of_ne hsame]
  | loaded hloader => exact Nat.le_refl _
  | addRunning hloader => exact Nat.le_refl _
  | addReady hloader hadd => exact Nat.le_refl _

end Os

/-- A CPU that is not at the second check with a process makes no call. -/
theorem Cpu.turn_cases {numCpus : Nat} (cpu : Cpu) (slot : Nat) (id : Fin numCpus) :
    (∃ proc timeLeft, cpu = .recheck (some proc) timeLeft ∧
      cpu.turn slot id = [{ slot := slot, id := id, proc := proc }]) ∨
    (∀ proc timeLeft, cpu ≠ .recheck (some proc) timeLeft) ∧ cpu.turn slot id = [] := by
  cases cpu with
  | recheck proc timeLeft =>
      cases proc with
      | none => exact Or.inr ⟨nofun, rfl⟩
      | some proc => exact Or.inl ⟨proc, timeLeft, rfl, rfl⟩
  | _ => exact Or.inr ⟨nofun, rfl⟩

/-- The order of the turns: slots do not go back, and a CPU or a process that has a second
turn has it in a later slot. -/
def Turn.Before {numCpus : Nat} (turn later : Turn numCpus) : Prop :=
  turn.slot ≤ later.slot ∧ (turn.id = later.id ∨ turn.proc = later.proc → turn.slot < later.slot)

namespace TimedOs

variable {config : TimedConfig} {state next : TimedOs config.numCpus}

/-- The calls of `run` for a process. -/
def turnsOf {numCpus : Nat} (state : TimedOs numCpus) (proc : Nat) : List (Turn numCpus) :=
  state.turns.filter fun turn => turn.proc = proc

/-- A CPU leaves the slot of its turn before anything else, and holds the process that ran
until the time has advanced. -/
structure Paced (state : TimedOs config.numCpus) : Prop where
  coupled : state.Coupled
  spent : ∀ turn ∈ state.turns, turn.slot < state.slotOf (.cpu turn.id)
  holding : ∀ turn ∈ state.turns, turn.slot = state.timer.ticks →
    (state.os.cpus turn.id).proc = some turn.proc
  sorted : state.turns.Pairwise Turn.Before
  pc_le : ∀ proc, (state.os.pcbs proc).pc ≤ (state.turnsOf proc).length

theorem paced_start (mm : MmStruct) (mram activeMswp : MemphyStruct) :
    (start mm mram activeMswp : TimedOs config.numCpus).Paced where
  coupled := coupled_start mm mram activeMswp
  spent := nofun
  holding := nofun
  sorted := List.Pairwise.nil
  pc_le _ := Nat.le_refl 0

theorem Paced.slot_le (hpaced : state.Paced) {turn : Turn config.numCpus}
    (hturn : turn ∈ state.turns) : turn.slot ≤ state.timer.ticks :=
  Nat.le_of_lt_succ ((hpaced.spent turn hturn).trans_le (hpaced.coupled.slotOf_le _))

/-- A CPU that is still in the current slot had no turn in it. -/
theorem Paced.slot_lt_of_current (hpaced : state.Paced) {turn : Turn config.numCpus}
    (hturn : turn ∈ state.turns) (hslot : state.slotOf (.cpu turn.id) ≤ state.timer.ticks) :
    turn.slot < state.timer.ticks := (hpaced.spent turn hturn).trans_le hslot

/-- Neither had the process that it holds. -/
theorem Paced.slot_lt_of_held (hpaced : state.Paced) {turn : Turn config.numCpus}
    {id : Fin config.numCpus} (hturn : turn ∈ state.turns)
    (hslot : state.slotOf (.cpu id) ≤ state.timer.ticks)
    (hheld : (state.os.cpus id).proc = some turn.proc) : turn.slot < state.timer.ticks := by
  refine Nat.lt_of_le_of_ne (hpaced.slot_le hturn) fun hnow => ?_
  have hsame := hpaced.coupled.owned.holder_unique (hpaced.holding turn hturn hnow) hheld
  exact absurd hnow (hpaced.slot_lt_of_current hturn (hsame ▸ hslot)).ne

/-- The turn that a step of a CPU adds, if it adds one. -/
theorem turn_of_mem {cpu : Cpu} {slot : Nat} {id : Fin config.numCpus}
    {turn : Turn config.numCpus} (hturn : turn ∈ cpu.turn slot id) :
    ∃ timeLeft, cpu = .recheck (some turn.proc) timeLeft ∧ turn.slot = slot ∧ turn.id = id := by
  rcases cpu.turn_cases slot id with ⟨proc, timeLeft, rfl, hcall⟩ | ⟨-, hcall⟩
  · rw [hcall, List.mem_singleton] at hturn
    subst hturn
    exact ⟨timeLeft, rfl, rfl, rfl⟩
  · rw [hcall] at hturn
    cases hturn

/-- The turns stay in order when a CPU in the current slot runs the process that it holds. -/
theorem Paced.sorted_append (hpaced : state.Paced) {id : Fin config.numCpus}
    (hcurrent : state.slotOf (.cpu id) ≤ state.timer.ticks) :
    (state.turns ++ (state.os.cpus id).turn state.timer.ticks id).Pairwise Turn.Before := by
  refine List.pairwise_append.mpr ⟨hpaced.sorted, ?_, fun turn hturn later hlater => ?_⟩
  · rcases (state.os.cpus id).turn_cases state.timer.ticks id with
      ⟨proc, timeLeft, -, hcall⟩ | ⟨-, hcall⟩
    · rw [hcall]
      exact List.pairwise_singleton _ _
    · rw [hcall]
      exact List.Pairwise.nil
  · obtain ⟨timeLeft, hcpu, hslot, hid⟩ := turn_of_mem hlater
    unfold Turn.Before
    rw [hslot, hid]
    refine ⟨hpaced.slot_le hturn, fun hsame => ?_⟩
    rcases hsame with rfl | hproc
    · exact hpaced.slot_lt_of_current hturn hcurrent
    · exact hpaced.slot_lt_of_held hturn hcurrent (by rw [hcpu, hproc]; rfl)

theorem Paced.pc_le_append (hpaced : state.Paced) {leftover : Leftover} {id : Fin config.numCpus}
    {os : Os config.numCpus} (hmove : Os.Move state.os (.cpu leftover id) os) (proc : Nat) :
    (os.pcbs proc).pc ≤ ((state.turns ++ (state.os.cpus id).turn state.timer.ticks id).filter
      fun turn => turn.proc = proc).length := by
  have hle := hpaced.pc_le proc
  unfold turnsOf at hle
  rw [List.filter_append, List.length_append]
  rcases hmove.pcbs_cpu with ⟨other, timeLeft, hcpu, hlt, hpcbs⟩ | ⟨hpcbs, -⟩
  · rw [hpcbs, hcpu]
    by_cases hsame : proc = other
    · subst hsame
      rw [Function.update_self]
      simp only [Cpu.turn, List.filter_singleton, decide_true, cond_true, List.length_singleton]
      omega
    · rw [Function.update_of_ne hsame]
      omega
  · rw [hpcbs]
    omega

theorem Paced.cpu_step {leftover : Leftover} {id : Fin config.numCpus} {os : Os config.numCpus}
    (hpaced : state.Paced) (hfree : state.Free (.cpu id))
    (hstep : state.os.step config.toConfig (.cpu leftover id) = some os)
    (hcoupled : (state.afterCpu id os).Coupled) :
    (state.afterCpu id os).Paced := by
  have hmove := Os.move_of_step hstep
  have hnow := hpaced.coupled.slotOf_of_free hfree (running_of_cpu_step hstep)
  refine
    { coupled := hcoupled, spent := fun turn hturn => ?_, holding := fun turn hturn hslot => ?_
      sorted := hpaced.sorted_append hnow.le, pc_le := hpaced.pc_le_append hmove }
  · rcases List.mem_append.mp hturn with hold | hnew
    · have hlt := hpaced.spent turn hold
      by_cases hsame : Device.cpu turn.id = .cpu id
      · rw [hsame] at hlt ⊢
        rw [slotOf_afterCpu_self hfree]
        exact hlt.trans_le (Nat.le_add_right _ _)
      · rwa [slotOf_afterCpu_of_ne hsame]
    -- a CPU that has run is on its way to the next slot
    · obtain ⟨timeLeft, hcpu, hslot, rfl⟩ := turn_of_mem hnew
      obtain ⟨⟨left, hhead⟩, -⟩ := hmove.cpu_of_recheck hcpu
      rw [slotOf_afterCpu_self hfree, hhead, hslot, hnow]
      exact Nat.lt_succ_self _
  · rcases List.mem_append.mp hturn with hold | hnew
    · have hother : Device.cpu id ≠ .cpu turn.id := by
        rintro ⟨⟩
        exact (hpaced.slot_lt_of_current hold hnow.le).ne hslot
      exact (congrArg Cpu.proc (cpus_of_cpu_step hstep hother)).trans
        (hpaced.holding turn hold hslot)
    · obtain ⟨timeLeft, hcpu, -, rfl⟩ := turn_of_mem hnew
      obtain ⟨⟨left, hhead⟩, -⟩ := hmove.cpu_of_recheck hcpu
      exact congrArg Cpu.proc hhead

/-- A step of the loader or of the timer makes no turn. -/
theorem Paced.frame (hpaced : state.Paced) (hcoupled : next.Coupled)
    (hturns : next.turns = state.turns) (hcpus : next.os.cpus = state.os.cpus)
    (hpcbs : ∀ proc, (next.os.pcbs proc).pc ≤ (state.os.pcbs proc).pc)
    (hticks : state.timer.ticks ≤ next.timer.ticks)
    (hslots : ∀ id, next.slotOf (.cpu id) = state.slotOf (.cpu id)) : next.Paced where
  coupled := hcoupled
  spent turn hturn := by
    rw [hslots]
    exact hpaced.spent turn (hturns ▸ hturn)
  holding turn hturn hslot := by
    rw [hturns] at hturn
    rw [hcpus]
    have hle := hpaced.slot_le hturn
    exact hpaced.holding turn hturn (by omega)
  sorted := hturns ▸ hpaced.sorted
  pc_le proc := by
    unfold turnsOf
    rw [hturns]
    exact (hpcbs proc).trans (hpaced.pc_le proc)

theorem Paced.act (hpaced : state.Paced) (hcoupled : next.Coupled) (hact : state.Act next) :
    next.Paced := by
  cases hact with
  | cpu hfree hstep => exact hpaced.cpu_step hfree hstep hcoupled
  | loader hfree htime hadds hstep =>
      have hmove := Os.move_of_step hstep
      exact hpaced.frame hcoupled rfl hmove.loader_frame.1 hmove.pc_loader (Nat.le_refl _)
        fun id => slotOf_setCalling_of_ne nofun
  | adds hfree hadds hstep =>
      have hmove := Os.move_of_step hstep
      exact hpaced.frame hcoupled rfl hmove.loader_frame.1 hmove.pc_loader (Nat.le_refl _)
        fun id => slotOf_setCalling_of_ne nofun
  | hold hfree hearly =>
      exact hpaced.frame hcoupled rfl rfl (fun _ => Nat.le_refl _) (Nat.le_refl _)
        fun id => slotOf_setCalling_of_ne nofun
  | clock hos hturns harrivals hslots hticks =>
      exact hpaced.frame hcoupled hturns (congrArg Os.cpus hos) (fun _ => by rw [hos])
        (by omega) fun id => hslots _

theorem Paced.move (hpaced : state.Paced) (hmove : state.Move next) : next.Paced :=
  hpaced.act (hpaced.coupled.move hmove) (hpaced.coupled.act hmove)

/-! ## The rate of execution -/

/-- Different slots between two bounds are no more than there are. -/
theorem length_le_of_nodup {slots : List Nat} (first last : Nat) (hnodup : slots.Nodup)
    (hslots : ∀ slot ∈ slots, first ≤ slot ∧ slot ≤ last) :
    slots.length ≤ last + 1 - first := by
  have hsub : slots ⊆ List.range' first (last + 1 - first) := fun slot hslot => by
    have hbounds := hslots slot hslot
    exact List.mem_range'_1.mpr ⟨hbounds.1, by omega⟩
  have hlength := (hnodup.subperm hsub).length_le
  rwa [List.length_range'] at hlength

/-- The rate of execution. `run` is called at most once in a slot on each CPU and for each
process, and an instruction needs a call of its own. -/
structure RateLimited (state : TimedOs config.numCpus) : Prop where
  slot_le : ∀ turn ∈ state.turns, turn.slot ≤ state.timer.ticks
  cpu_once : (state.turns.map fun turn => (turn.slot, turn.id)).Nodup
  proc_once : (state.turns.map fun turn => (turn.slot, turn.proc)).Nodup
  pc_le : ∀ proc, (state.os.pcbs proc).pc ≤ (state.turnsOf proc).length
  turnsOf_le : ∀ proc, (state.turnsOf proc).length ≤ state.timer.ticks + 1
  turns_le : state.turns.length ≤ (state.timer.ticks + 1) * config.numCpus

theorem Paced.cpu_once (hpaced : state.Paced) :
    (state.turns.map fun turn => (turn.slot, turn.id)).Nodup := by
  refine List.pairwise_map.mpr (hpaced.sorted.imp fun {turn later} hbefore heq => ?_)
  obtain ⟨hslot, hid⟩ := Prod.mk.inj heq
  exact (hbefore.2 (Or.inl hid)).ne hslot

/-- The turns of one process are in different slots. -/
theorem Paced.nodup_turnsOf (hpaced : state.Paced) (proc : Nat) :
    ((state.turnsOf proc).map Turn.slot).Nodup := by
  refine List.pairwise_map.mpr (List.Pairwise.imp_of_mem ?_ (hpaced.sorted.filter _))
  intro turn later hturn hlater hbefore
  have hproc := of_decide_eq_true (List.mem_filter.mp hturn).2
  have hsame := of_decide_eq_true (List.mem_filter.mp hlater).2
  exact (hbefore.2 (Or.inr (hproc.trans hsame.symm))).ne

theorem Paced.rateLimited (hpaced : state.Paced) : state.RateLimited where
  slot_le _ := hpaced.slot_le
  cpu_once := hpaced.cpu_once
  proc_once := by
    refine List.pairwise_map.mpr (hpaced.sorted.imp fun {turn later} hbefore heq => ?_)
    obtain ⟨hslot, hproc⟩ := Prod.mk.inj heq
    exact (hbefore.2 (Or.inr hproc)).ne hslot
  pc_le := hpaced.pc_le
  turnsOf_le proc := by
    have hnodup := hpaced.nodup_turnsOf proc
    have hlength := length_le_of_nodup 0 state.timer.ticks hnodup fun slot hslot => by
      obtain ⟨turn, hturn, rfl⟩ := List.mem_map.mp hslot
      exact ⟨Nat.zero_le _, hpaced.slot_le (List.mem_filter.mp hturn).1⟩
    rwa [List.length_map] at hlength
  turns_le := by
    have hsub : (state.turns.map fun turn => (turn.slot, turn.id)) ⊆
        List.range (state.timer.ticks + 1) ×ˢ List.finRange config.numCpus := by
      intro pair hpair
      obtain ⟨turn, hturn, rfl⟩ := List.mem_map.mp hpair
      exact List.mem_product.mpr ⟨List.mem_range.mpr (Nat.lt_succ_of_le (hpaced.slot_le hturn)),
        List.mem_finRange turn.id⟩
    have hlength := (hpaced.cpu_once.subperm hsub).length_le
    rwa [List.length_map, List.length_product, List.length_range, List.length_finRange] at hlength

/-- The rate of execution in every state of every run, for any number of CPUs and any order
of the steps of the threads and the timer. -/
theorem visited_rateLimited (config : TimedConfig) (mm : MmStruct)
    (mram activeMswp : MemphyStruct) (events : List (TimedEvent config.numCpus)) :
    ∀ state ∈ Runs.visited (step config) (start mm mram activeMswp) events,
      state.RateLimited := by
  intro state hstate
  exact (Runs.visited_invariant Paced (fun _ => True)
    (fun _ _ _ _ hpaced hstep => hpaced.move (move_of_step hstep)) (fun _ _ => trivial)
    (paced_start mm mram activeMswp) state hstate).rateLimited

/-- One process of one instruction, which is to start in the second slot, on one CPU. -/
def oneJob : TimedConfig where
  timeSlot := 1
  numCpus := 1
  numProcesses := 1
  prio _ := 0
  text _ := [{ opcode := .calc, arg0 := 0, arg1 := 0, arg2 := 0, arg3 := 0 }]
  numProcesses_lt := by decide
  size_lt _ := by decide
  startTime _ := 1

/-- The steps by which both threads of the configuration get to the next slot. -/
def oneJobTick : List (TimedEvent oneJob.numCpus) :=
  let cpu : Device oneJob.numCpus := .cpu ⟨0, by decide⟩
  [.enter cpu, .enter .loader] ++ List.replicate 8 .timer ++ [.leave cpu, .leave .loader]

/-- A schedule in which the CPU looks for work before the loader adds it. -/
def oneJobEvents : List (TimedEvent oneJob.numCpus) :=
  let id : Fin oneJob.numCpus := ⟨0, by decide⟩
  let cpu : TimedEvent oneJob.numCpus := .cpu .zero id
  let loader : TimedEvent oneJob.numCpus := .loader .null
  [cpu, .hold] ++ oneJobTick ++ [cpu, loader, loader, loader] ++ oneJobTick ++
    [cpu, cpu, loader, .detach .loader, .enter (.cpu id)] ++ List.replicate 8 .timer ++
    [.leave (.cpu id), cpu, cpu, cpu, .detach (.cpu id)] ++ List.replicate 5 .timer

/-- The process runs once, in the third slot. -/
theorem visited_rateLimited_one_job :
    ∃ state, Runs.run (step oneJob)
        (start (initMm .null) singleProcess.mram singleProcess.activeMswp) oneJobEvents =
          some state ∧
      state.turns = [{ slot := 2, id := ⟨0, by decide⟩, proc := 0 }] ∧ state.RateLimited := by
  have hfinal : (Runs.run (step oneJob)
      (start (initMm .null) singleProcess.mram singleProcess.activeMswp) oneJobEvents).map
        (fun state => state.turns) = some [{ slot := 2, id := ⟨0, by decide⟩, proc := 0 }] := by
    decide +kernel
  obtain ⟨state, hrun, hturns⟩ := Option.map_eq_some_iff.mp hfinal
  exact ⟨state, hrun, hturns, visited_rateLimited oneJob _ _ _ _ state
    (Runs.mem_visited_iff.mpr ⟨_, List.prefix_rfl, hrun⟩)⟩

end TimedOs

end SimpleOs
