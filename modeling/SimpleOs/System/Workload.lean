import SimpleOs.System.Arrivals
import SimpleOs.System.ExactlyOnce

/-! # The work that a configuration brings

A process needs one call of `run` for each of its instructions, and an empty one still gets a
call, which does nothing. Wherever a process waits for its turn it has calls left, and it is
freed when it has had them all.
-/

namespace SimpleOs

/-- The calls of `run` that a process needs. -/
def Config.need (config : Config) (proc : Nat) : Nat := max 1 (config.text proc).length

/-- The process that a CPU has yet to run, or to put back before it runs again. -/
def Cpu.due : Cpu → Option Nat
  | .recheck proc _ => proc
  | .putReady proc _ => some proc
  | _ => none

/-- The process that a CPU has run and not looked at since. -/
def Cpu.ran : Cpu → Option Nat
  | .top proc _ => proc
  | _ => none

namespace Os

variable {config : Config} {os next : Os config.numCpus}

/-- The process waits for a turn, in a ready queue or with a CPU. -/
def Due (os : Os config.numCpus) (proc : Nat) : Prop :=
  (∃ level, proc ∈ os.sched.ready level) ∨ ∃ id, (os.cpus id).due = some proc

theorem proc_of_due {cpu : Cpu} {proc : Nat} (hdue : cpu.due = some proc) :
    cpu.proc = some proc := by
  cases cpu <;> first | exact hdue | cases hdue

theorem proc_of_ran {cpu : Cpu} {proc : Nat} (hran : cpu.ran = some proc) :
    cpu.proc = some proc := by
  cases cpu <;> first | exact hran | cases hran

theorem due_or_ran_of_proc {cpu : Cpu} {proc : Nat} (hproc : cpu.proc = some proc) :
    cpu.due = some proc ∨ cpu.ran = some proc := by
  cases cpu with
  | top proc timeLeft => exact Or.inr hproc
  | putReady proc timeLeft => exact Or.inl hproc
  | recheck proc timeLeft => exact Or.inl hproc
  | afterPut timeLeft => cases hproc
  | afterFree => cases hproc
  | stopped => cases hproc

theorem Tracked.pc_le (htracked : os.Tracked) {proc : Nat} (hloaded : proc < os.loaded) :
    (os.pcbs proc).pc ≤ (config.text proc).length := by
  obtain ⟨life, -, hmatches⟩ := htracked.lives proc hloaded
  cases hmatches with
  | waiting halive hpc => exact hpc
  | running halive id hturn => exact hturn.pc_le
  | finished hfreed hpc => exact hpc.le

/-- What waits after a step of a CPU, waited before or is with that CPU. -/
theorem due_setCpu {base : Os config.numCpus} {id : Fin config.numCpus} {cpu : Cpu} {proc : Nat}
    (hdue : (base.setCpu id cpu).Due proc) (hcpus : base.cpus = os.cpus) :
    (∃ level, proc ∈ base.sched.ready level) ∨ (∃ other, (os.cpus other).due = some proc) ∨
      cpu.due = some proc := by
  rcases hdue with hready | ⟨other, hother⟩
  · exact Or.inl hready
  · change (Function.update base.cpus id cpu other).due = some proc at hother
    by_cases hsame : other = id
    · subst hsame
      rw [Function.update_self] at hother
      exact Or.inr (Or.inr hother)
    · rw [Function.update_of_ne hsame, hcpus] at hother
      exact Or.inr (Or.inl ⟨other, hother⟩)

theorem mem_of_mem_dequeueAt {sched : Sched Nat} {level other : Fin maxPrio} {usedSlot : Int}
    {proc : Nat} (hmem : proc ∈ (sched.dequeueAt level usedSlot).2.ready other) :
    proc ∈ sched.ready other := by
  rw [Sched.ready_dequeueAt] at hmem
  split at hmem
  next hsame =>
    subst hsame
    exact List.mem_of_mem_tail hmem
  next => exact hmem

theorem mem_of_mem_inserted {prio : Nat → Nat} {sched after : Sched Nat} {proc other : Nat}
    {level : Fin maxPrio} (hinserted : Sched.Inserted prio sched proc after)
    (hmem : other ∈ after.ready level) : other ∈ sched.ready level ∨ other = proc := by
  obtain ⟨hprio, hready⟩ := hinserted
  rw [hready] at hmem
  split at hmem
  next => exact (List.mem_append.mp hmem).imp_right List.mem_singleton.mp
  next => exact Or.inl hmem

end Os

namespace TimedOs

variable {config : TimedConfig} {state next : TimedOs config.numCpus}

/-- How often `run` was called for the process. -/
def calls {numCpus : Nat} (state : TimedOs numCpus) (proc : Nat) : Nat :=
  (state.turnsOf proc).length

/-- The calls of `run` account for the work. A process that waits for a turn has calls left,
and a freed one has none. A CPU that has run a process is in the slot after that turn. -/
structure WorkLeft (state : TimedOs config.numCpus) : Prop where
  ontime : state.OnTime
  tracked : state.os.Tracked
  calls_eq : ∀ proc, state.calls proc = (state.os.pcbs proc).pc ∨
    config.text proc = [] ∧ state.calls proc ≤ 1
  unadded : ∀ proc, state.os.loader.i ≤ proc → state.calls proc = 0
  due_lt : ∀ proc, state.os.Due proc → state.calls proc < config.need proc
  ran : ∀ id proc, (state.os.cpus id).ran = some proc → ∃ turn ∈ state.turns,
    turn.id = id ∧ turn.proc = proc ∧ turn.slot + 1 = state.slotOf (.cpu id)
  freed_ge : ∀ proc ∈ state.os.freed, config.need proc ≤ state.calls proc

theorem workLeft_start (mm : MmStruct) (mram activeMswp : MemphyStruct) :
    (start mm mram activeMswp : TimedOs config.numCpus).WorkLeft where
  ontime := onTime_start mm mram activeMswp
  tracked := Os.tracked_start mm mram activeMswp
  calls_eq _ := Or.inl rfl
  unadded _ _ := rfl
  due_lt proc hdue := by
    rcases hdue with ⟨level, hready⟩ | ⟨id, hdue⟩
    · change proc ∈ (Sched.initScheduler : Sched Nat).ready level at hready
      rw [Sched.ready_initScheduler] at hready
      cases hready
    · cases hdue
  ran := nofun
  freed_ge := nofun

theorem calls_pos_of_mem {turn : Turn config.numCpus} (hturn : turn ∈ state.turns) :
    0 < state.calls turn.proc :=
  List.length_pos_of_mem (List.mem_filter.mpr ⟨hturn, decide_eq_true rfl⟩)

/-- A process with no call too many. -/
theorem WorkLeft.calls_le (hwork : state.WorkLeft) {proc : Nat}
    (hadded : proc < state.os.loader.i) : state.calls proc ≤ config.need proc := by
  have hpc := hwork.tracked.pc_le (hadded.trans_le state.os.i_le_loaded)
  unfold Config.need
  rcases hwork.calls_eq proc with heq | ⟨-, hle⟩
  · rw [heq]
    exact hpc.trans (Nat.le_max_right _ _)
  · exact hle.trans (Nat.le_max_left _ _)

/-- A process that has run has calls left exactly when it has instructions left. -/
theorem WorkLeft.calls_lt_iff_of_ran (hwork : state.WorkLeft) {id : Fin config.numCpus}
    {proc : Nat} (hran : (state.os.cpus id).ran = some proc) :
    state.calls proc < config.need proc ↔
      (state.os.pcbs proc).pc ≠ (state.os.pcbs proc).code.length := by
  have hloaded := hwork.tracked.loaded_of_held (Os.proc_of_ran hran)
  have hpc := hwork.tracked.pc_le hloaded
  obtain ⟨turn, hturn, -, rfl, -⟩ := hwork.ran id proc hran
  have hpositive := calls_pos_of_mem hturn
  rw [hwork.tracked.code turn.proc hloaded]
  unfold Config.need
  rcases hwork.calls_eq turn.proc with heq | ⟨hempty, hle⟩
  · omega
  · rw [hempty] at hpc ⊢
    simp only [List.length_nil] at hpc ⊢
    omega

/-! ## Steps of a CPU -/

section

variable {leftover : Leftover} {id : Fin config.numCpus} {os : Os config.numCpus}

theorem turns_afterCpu_of_quiet
    (hquiet : ∀ proc timeLeft, state.os.cpus id ≠ .recheck (some proc) timeLeft) :
    (state.afterCpu id os).turns = state.turns := by
  have hnone : (state.os.cpus id).turn state.timer.ticks id = [] := by
    rcases (state.os.cpus id).turn_cases state.timer.ticks id with
      ⟨proc, timeLeft, hcpu, -⟩ | ⟨-, hnone⟩
    · exact absurd hcpu (hquiet proc timeLeft)
    · exact hnone
  change state.turns ++ (state.os.cpus id).turn state.timer.ticks id = state.turns
  rw [hnone, List.append_nil]

theorem calls_afterCpu_of_recheck {proc : Nat} {timeLeft : Int}
    (hcpu : state.os.cpus id = .recheck (some proc) timeLeft) (other : Nat) :
    (state.afterCpu id os).calls other = state.calls other + if other = proc then 1 else 0 := by
  change ((state.turns ++ (state.os.cpus id).turn state.timer.ticks id).filter
    fun turn => turn.proc = other).length = _
  rw [hcpu, List.filter_append, List.length_append]
  change state.calls other + _ = _
  by_cases hsame : other = proc
  · subst hsame
    simp only [Cpu.turn, List.filter_singleton, decide_true, cond_true, List.length_singleton,
      if_true]
  · have hne : proc ≠ other := Ne.symm hsame
    simp only [Cpu.turn, List.filter_singleton, hne, decide_false, cond_false, List.length_nil,
      hsame, if_false]

/-- A CPU that runs nothing changes the account of no process. -/
theorem WorkLeft.quiet (hwork : state.WorkLeft) (hontime : (state.afterCpu id os).OnTime)
    (htracked : os.Tracked) (hmove : Os.Move state.os (.cpu leftover id) os)
    (hquiet : ∀ proc timeLeft, state.os.cpus id ≠ .recheck (some proc) timeLeft)
    (hran : (os.cpus id).ran = none)
    (hdue : ∀ proc, os.Due proc → state.calls proc < config.need proc)
    (hfreed : ∀ proc ∈ os.freed, config.need proc ≤ state.calls proc) :
    (state.afterCpu id os).WorkLeft := by
  have hturns : (state.afterCpu id os).turns = state.turns := turns_afterCpu_of_quiet hquiet
  have hcalls : ∀ proc, (state.afterCpu id os).calls proc = state.calls proc := fun proc => by
    unfold calls turnsOf
    rw [hturns]
  have hpcbs : os.pcbs = state.os.pcbs := by
    rcases hmove.pcbs_cpu with ⟨proc, timeLeft, hcpu, -, -⟩ | ⟨hpcbs, -⟩
    · exact absurd hcpu (hquiet proc timeLeft)
    · exact hpcbs
  refine
    { ontime := hontime, tracked := htracked, calls_eq := fun proc => ?_
      unadded := fun proc hproc => ?_, due_lt := fun proc hproc => ?_
      ran := fun other proc hother => ?_, freed_ge := fun proc hproc => ?_ }
  · rw [hcalls]
    change _ = (os.pcbs proc).pc ∨ _
    rw [hpcbs]
    exact hwork.calls_eq proc
  · rw [hcalls]
    change os.loader.i ≤ proc at hproc
    rw [hmove.cpu_frame.1] at hproc
    exact hwork.unadded proc hproc
  · rw [hcalls]
    exact hdue proc hproc
  · change (os.cpus other).ran = some proc at hother
    have hne : other ≠ id := by
      rintro rfl
      rw [hran] at hother
      cases hother
    have hkept : os.cpus other = state.os.cpus other := by
      rw [hmove.cpu_frame.2.2]
      exact Function.update_of_ne hne _ _
    rw [hkept] at hother
    rw [hturns, slotOf_afterCpu_of_ne fun heq => hne (Device.cpu.inj heq)]
    exact hwork.ran other proc hother
  · rw [hcalls]
    exact hfreed proc hproc

/-- A call of `run` either executes an instruction or is the one that an empty process gets. -/
theorem WorkLeft.calls_eq_turn {proc : Nat} {timeLeft : Int} (hwork : state.WorkLeft)
    (hmove : Os.Move state.os (.cpu leftover id) os)
    (hcpu : state.os.cpus id = .recheck (some proc) timeLeft)
    (hlt : state.calls proc < config.need proc) (other : Nat) :
    (state.afterCpu id os).calls other = (os.pcbs other).pc ∨
      config.text other = [] ∧ (state.afterCpu id os).calls other ≤ 1 := by
  have hloaded : proc < state.os.loaded := hwork.tracked.loaded_of_held (by rw [hcpu]; rfl)
  have hcode := hwork.tracked.code proc hloaded
  have hcalls := hwork.calls_eq other
  rw [calls_afterCpu_of_recheck hcpu]
  rcases hmove.pcbs_cpu with ⟨_, _, hrecheck, hpc, hpcbs⟩ | ⟨hpcbs, hpast⟩
  · cases hcpu.symm.trans hrecheck
    rw [hpcbs]
    by_cases hsame : other = proc
    · subst hsame
      rw [Function.update_self, if_pos rfl]
      rcases hcalls with heq | ⟨hempty, -⟩
      · exact Or.inl (congrArg (· + 1) heq)
      · rw [hcode, hempty] at hpc
        cases hpc
    · rw [Function.update_of_ne hsame, if_neg hsame]
      exact hcalls
  · rw [hpcbs]
    by_cases hsame : other = proc
    · subst hsame
      have hend := hpast other timeLeft hcpu
      rw [hcode] at hend
      unfold Config.need at hlt
      rw [if_pos rfl]
      rcases hcalls with heq | ⟨hempty, hle⟩
      · have hlength : (config.text other).length = 0 := by omega
        exact Or.inr ⟨List.length_eq_zero_iff.mp hlength, by omega⟩
      · rw [hempty, List.length_nil] at hlt
        exact Or.inr ⟨hempty, by omega⟩
    · rw [if_neg hsame]
      exact hcalls

/-- A call of `run`, which is one of those that the process needs. -/
theorem WorkLeft.turn {proc : Nat} {timeLeft : Int} (hwork : state.WorkLeft)
    (hontime : (state.afterCpu id os).OnTime) (htracked : os.Tracked)
    (hfree : state.Free (.cpu id)) (hmove : Os.Move state.os (.cpu leftover id) os)
    (hcpu : state.os.cpus id = .recheck (some proc) timeLeft) :
    (state.afterCpu id os).WorkLeft := by
  have howned := hwork.ontime.paced.coupled.owned
  have hheld : (state.os.cpus id).proc = some proc := by rw [hcpu]; rfl
  have hcalls : ∀ other, (state.afterCpu id os).calls other =
      state.calls other + if other = proc then 1 else 0 := calls_afterCpu_of_recheck hcpu
  have hothers : ∀ other, other ≠ proc →
      (state.afterCpu id os).calls other = state.calls other := fun other hne => by
    rw [hcalls, if_neg hne, Nat.add_zero]
  have hlt := hwork.due_lt proc (Or.inr ⟨id, by rw [hcpu]; rfl⟩)
  obtain ⟨⟨left, hhead⟩, hready, hfreed⟩ := hmove.cpu_of_recheck hcpu
  have hkept : ∀ other, other ≠ id → os.cpus other = state.os.cpus other := fun other hne => by
    rw [hmove.cpu_frame.2.2]
    exact Function.update_of_ne hne _ _
  refine
    { ontime := hontime, tracked := htracked, calls_eq := fun other => ?_
      unadded := fun other hother => ?_, due_lt := fun other hother => ?_
      ran := fun other which hran => ?_, freed_ge := fun other hother => ?_ }
  · exact hwork.calls_eq_turn hmove hcpu hlt other
  · change os.loader.i ≤ other at hother
    rw [hmove.cpu_frame.1] at hother
    have hadded := howned.added_of_held (Or.inl (Os.mem_held.mpr ⟨id, hheld⟩))
    rw [hothers other (by omega)]
    exact hwork.unadded other hother
  -- nobody else waits with the process that runs
  · have hwas : state.os.Due other ∧ other ≠ proc := by
      rcases hother with ⟨level, hmem⟩ | ⟨holder, hdue⟩
      · change other ∈ os.sched.ready level at hmem
        rw [hready] at hmem
        refine ⟨Or.inl ⟨level, hmem⟩, ?_⟩
        rintro rfl
        exact (howned.not_held_of_ready hmem).1 (Os.mem_held.mpr ⟨id, hheld⟩)
      · change (os.cpus holder).due = some other at hdue
        have hne : holder ≠ id := by
          rintro rfl
          rw [hhead] at hdue
          cases hdue
        rw [hkept holder hne] at hdue
        refine ⟨Or.inr ⟨holder, hdue⟩, ?_⟩
        rintro rfl
        exact hne (howned.holder_unique (Os.proc_of_due hdue) hheld)
    rw [hothers other hwas.2]
    exact hwork.due_lt other hwas.1
  · change (os.cpus other).ran = some which at hran
    by_cases hsame : other = id
    · subst hsame
      rw [hhead] at hran
      cases hran
      refine ⟨{ slot := state.timer.ticks, id := other, proc := proc },
        List.mem_append_right _ ?_, rfl, rfl, ?_⟩
      · rw [hcpu]
        exact List.mem_singleton_self _
      · rw [slotOf_afterCpu_self hfree, hhead,
          hwork.ontime.paced.coupled.slotOf_of_free hfree (exited_cpu_of_ne (hcpu ▸ nofun))]
        rfl
    · rw [hkept other hsame] at hran
      obtain ⟨turn, hturn, hid, hproc, hslot⟩ := hwork.ran other which hran
      rw [slotOf_afterCpu_of_ne fun heq => hsame (Device.cpu.inj heq)]
      exact ⟨turn, List.mem_append_left _ hturn, hid, hproc, hslot⟩
  · change other ∈ os.freed at hother
    rw [hfreed] at hother
    rw [hcalls]
    exact (hwork.freed_ge other hother).trans (Nat.le_add_right _ _)

/-- Only what waits with the CPU that moves, or is new in a ready queue, has to be looked at
after a step. -/
theorem WorkLeft.due_lt_setCpu {base : Os config.numCpus} {cpu : Cpu} {proc : Nat}
    (hwork : state.WorkLeft) (hdue : (base.setCpu id cpu).Due proc)
    (hcpus : base.cpus = state.os.cpus)
    (hready : ∀ level, proc ∈ base.sched.ready level →
      proc ∈ state.os.sched.ready level ∨ state.calls proc < config.need proc)
    (hcpu : cpu.due = some proc → state.calls proc < config.need proc) :
    state.calls proc < config.need proc := by
  rcases Os.due_setCpu hdue hcpus with ⟨level, hmem⟩ | hother | hself
  · exact (hready level hmem).elim (fun hwas => hwork.due_lt proc (Or.inl ⟨level, hwas⟩))
      fun hlt => hlt
  · exact hwork.due_lt proc (Or.inr hother)
  · exact hcpu hself

theorem WorkLeft.cpu_step (hwork : state.WorkLeft) (hontime : (state.afterCpu id os).OnTime)
    (htracked : os.Tracked) (hfree : state.Free (.cpu id))
    (hmove : Os.Move state.os (.cpu leftover id) os) : (state.afterCpu id os).WorkLeft := by
  have hquiet := hwork.quiet hontime htracked hmove
  have hturn : ∀ proc timeLeft, state.os.cpus id = .recheck (some proc) timeLeft →
      (state.afterCpu id os).WorkLeft := fun _ _ hcpu =>
    hwork.turn hontime htracked hfree hmove hcpu
  cases hmove with
  | idle hcpu =>
      exact hquiet (hcpu ▸ nofun) (by rw [hcpu]; rfl) hwork.due_lt hwork.freed_ge
  | @get _ _ timeLeft level usedSlot proc rest hcpu hready =>
      refine hquiet (fun _ _ hrecheck => by rw [hrecheck] at hcpu; cases hcpu)
        (by rw [Os.cpus_setCpu_self]; rfl) (fun other hother => ?_) hwork.freed_ge
      refine hwork.due_lt_setCpu hother rfl (fun _ hmem => Or.inl ?_) ?_
      · exact Os.mem_of_mem_dequeueAt hmem
      · rintro ⟨⟩
        exact hwork.due_lt proc (Or.inl ⟨level, hready ▸ List.mem_cons_self⟩)
  | getNone hcpu =>
      refine hquiet (fun _ _ hrecheck => by rw [hrecheck] at hcpu; cases hcpu)
        (by rw [Os.cpus_setCpu_self]; rfl) (fun other hother => ?_) hwork.freed_ge
      exact hwork.due_lt_setCpu hother rfl (fun _ => Or.inl) nofun
  | @finish _ _ proc timeLeft hcpu halive hend =>
      have hran : (state.os.cpus id).ran = some proc := by rw [hcpu]; rfl
      refine hquiet (hcpu ▸ nofun) (by rw [Os.cpus_setCpu_self]; rfl) (fun other hother => ?_)
        fun other hother => ?_
      · exact hwork.due_lt_setCpu hother rfl (fun _ => Or.inl) nofun
      · rcases List.mem_cons.mp hother with rfl | hwas
        · exact Nat.le_of_not_lt fun hlt => (hwork.calls_lt_iff_of_ran hran).mp hlt hend
        · exact hwork.freed_ge other hwas
  | @put _ _ proc hcpu halive hpc =>
      have hran : (state.os.cpus id).ran = some proc := by rw [hcpu]; rfl
      refine hquiet (hcpu ▸ nofun) (by rw [Os.cpus_setCpu_self]; rfl) (fun other hother => ?_)
        hwork.freed_ge
      refine hwork.due_lt_setCpu hother rfl (fun _ => Or.inl) ?_
      rintro ⟨⟩
      exact (hwork.calls_lt_iff_of_ran hran).mpr hpc
  | @pass _ _ proc timeLeft hcpu halive hpc htime =>
      have hran : (state.os.cpus id).ran = some proc := by rw [hcpu]; rfl
      refine hquiet (hcpu ▸ nofun) (by rw [Os.cpus_setCpu_self]; rfl) (fun other hother => ?_)
        hwork.freed_ge
      refine hwork.due_lt_setCpu hother rfl (fun _ => Or.inl) ?_
      rintro ⟨⟩
      exact (hwork.calls_lt_iff_of_ran hran).mpr hpc
  | @putReady _ _ proc timeLeft sched hcpu hput =>
      refine hquiet (hcpu ▸ nofun) (by rw [Os.cpus_setCpu_self]; rfl) (fun other hother => ?_)
        hwork.freed_ge
      refine hwork.due_lt_setCpu hother rfl (fun level hmem => ?_) nofun
      refine (Os.mem_of_mem_inserted (Sched.ready_enqueueReady hput) hmem).imp_right ?_
      rintro rfl
      exact hwork.due_lt other (Or.inr ⟨id, by rw [hcpu]; rfl⟩)
  | stop hcpu =>
      refine hquiet (hcpu ▸ nofun) (by rw [Os.cpus_setCpu_self]; rfl) (fun other hother => ?_)
        hwork.freed_ge
      exact hwork.due_lt_setCpu hother rfl (fun _ => Or.inl) nofun
  | again hcpu =>
      refine hquiet (hcpu ▸ nofun) (by rw [Os.cpus_setCpu_self]; rfl) (fun other hother => ?_)
        hwork.freed_ge
      exact hwork.due_lt_setCpu hother rfl (fun _ => Or.inl) nofun
  | runPastEnd hcpu halive hend =>
      exact hturn _ _ hcpu
  | run hcpu halive hins hexecute =>
      exact hturn _ _ hcpu

end

/-! ## The other steps -/

/-- A step of the loader or of the timer makes no call and frees nothing. The process that
the loader is about to add had no call yet. -/
theorem WorkLeft.frame (hwork : state.WorkLeft) (hontime : next.OnTime)
    (htracked : next.os.Tracked) (hturns : next.turns = state.turns)
    (hpcbs : ∀ proc, next.os.pcbs proc = state.os.pcbs proc ∨
      (next.os.pcbs proc).pc = 0 ∧ state.os.loader.i ≤ proc)
    (hi : state.os.loader.i ≤ next.os.loader.i)
    (hready : ∀ level proc, proc ∈ next.os.sched.ready level →
      proc ∈ state.os.sched.ready level ∨ state.os.loader.i ≤ proc)
    (hcpus : next.os.cpus = state.os.cpus) (hfreed : next.os.freed = state.os.freed)
    (hslots : ∀ id, next.slotOf (.cpu id) = state.slotOf (.cpu id)) : next.WorkLeft := by
  have hcalls : ∀ proc, next.calls proc = state.calls proc := fun proc => by
    unfold calls turnsOf
    rw [hturns]
  refine
    { ontime := hontime, tracked := htracked, calls_eq := fun proc => ?_
      unadded := fun proc hproc => ?_, due_lt := fun proc hdue => ?_
      ran := fun id proc hran => ?_, freed_ge := fun proc hproc => ?_ }
  · rw [hcalls]
    rcases hpcbs proc with hsame | ⟨hzero, hnew⟩
    · rw [hsame]
      exact hwork.calls_eq proc
    · exact Or.inl ((hwork.unadded proc hnew).trans hzero.symm)
  · rw [hcalls]
    exact hwork.unadded proc (hi.trans hproc)
  · rw [hcalls]
    have hnew : state.os.loader.i ≤ proc → state.calls proc < config.need proc := fun hle => by
      rw [hwork.unadded proc hle]
      exact Nat.lt_of_lt_of_le Nat.zero_lt_one (Nat.le_max_left _ _)
    rcases hdue with ⟨level, hmem⟩ | ⟨id, hid⟩
    · exact (hready level proc hmem).elim (fun hwas => hwork.due_lt proc (Or.inl ⟨level, hwas⟩))
        hnew
    · rw [hcpus] at hid
      exact hwork.due_lt proc (Or.inr ⟨id, hid⟩)
  · rw [hcpus] at hran
    rw [hturns, hslots]
    exact hwork.ran id proc hran
  · rw [hcalls]
    rw [hfreed] at hproc
    exact hwork.freed_ge proc hproc

/-- What a step of the loader makes of the ready queues and the process structures. -/
theorem loader_adds {garbage : ListEnd} {os : Os config.numCpus}
    (hmove : Os.Move state.os (.loader garbage) os) : state.os.loader.i ≤ os.loader.i ∧
      (∀ proc, os.pcbs proc = state.os.pcbs proc ∨
        (os.pcbs proc).pc = 0 ∧ state.os.loader.i ≤ proc) ∧
      ∀ level proc, proc ∈ os.sched.ready level →
        proc ∈ state.os.sched.ready level ∨ state.os.loader.i ≤ proc := by
  cases hmove with
  | @load _ i hloader hi =>
      rw [hloader]
      refine ⟨Nat.le_refl _, fun proc => ?_, fun _ _ => Or.inl⟩
      change Function.update state.os.pcbs i _ proc = _ ∨
        (Function.update state.os.pcbs i _ proc).pc = 0 ∧ _
      by_cases hsame : proc = i
      · subst hsame
        rw [Function.update_self]
        exact Or.inr ⟨rfl, Nat.le_refl _⟩
      · exact Or.inl (Function.update_of_ne hsame _ _)
  | loaded hloader =>
      rw [hloader]
      exact ⟨Nat.le_refl _, fun _ => Or.inl rfl, fun _ _ => Or.inl⟩
  | addRunning hloader =>
      rw [hloader]
      exact ⟨Nat.le_refl _, fun _ => Or.inl rfl, fun _ _ => Or.inl⟩
  | @addReady _ i sched hloader hadd =>
      rw [hloader]
      refine ⟨Nat.le_succ _, fun _ => Or.inl rfl, fun level proc hmem => ?_⟩
      exact (Os.mem_of_mem_inserted (Sched.ready_enqueueReady hadd) hmem).imp_right (·.ge)

theorem WorkLeft.act (hslot : 0 < config.timeSlot) (hwork : state.WorkLeft)
    (hontime : next.OnTime) (hact : state.Act next) : next.WorkLeft := by
  cases hact with
  | cpu hfree hstep =>
      have hmove := Os.move_of_step hstep
      exact hwork.cpu_step hontime (hwork.tracked.move hslot hmove) hfree hmove
  | loader hfree htime hadds hstep =>
      have hmove := Os.move_of_step hstep
      obtain ⟨hi, hpcbs, hready⟩ := loader_adds hmove
      exact hwork.frame hontime (hwork.tracked.move hslot hmove) rfl hpcbs hi hready
        hmove.loader_frame.1 hmove.loader_frame.2.1 fun id => slotOf_setCalling_of_ne nofun
  | adds hfree hadds hstep =>
      have hmove := Os.move_of_step hstep
      obtain ⟨hi, hpcbs, hready⟩ := loader_adds hmove
      exact hwork.frame hontime (hwork.tracked.move hslot hmove) rfl hpcbs hi hready
        hmove.loader_frame.1 hmove.loader_frame.2.1 fun id => slotOf_setCalling_of_ne nofun
  | hold hfree hearly =>
      exact hwork.frame hontime hwork.tracked rfl (fun _ => Or.inl rfl) (Nat.le_refl _)
        (fun _ _ => Or.inl) rfl rfl fun id => slotOf_setCalling_of_ne nofun
  | clock hos hturns harrivals hslots hticks =>
      refine hwork.frame hontime (hos ▸ hwork.tracked) hturns (fun _ => Or.inl (by rw [hos]))
        (by rw [hos]) (fun _ _ hmem => Or.inl (hos ▸ hmem)) (by rw [hos]) (by rw [hos])
        fun id => hslots _

end TimedOs

end SimpleOs
