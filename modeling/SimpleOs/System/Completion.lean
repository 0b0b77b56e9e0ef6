import SimpleOs.Foundation.Conserving
import SimpleOs.System.Workload

/-! # When the work is done

In every slot some CPU runs a process, unless all the processes that arrived before have had
all their turns. So the time at which all the work is done has a bound that depends on the
configuration only, and no process is left behind when the CPUs stop.
-/

namespace SimpleOs

namespace Os

variable {config : Config} {os next : Os config.numCpus} {leftover : Leftover}
  {id : Fin config.numCpus}

/-- A CPU that looks for a process and finds none, has seen all ready queues empty. -/
theorem ready_empty_of_step {timeLeft : Int}
    (hstep : os.step config (.cpu leftover id) = some next)
    (hcpu : Fetching (os.cpus id) timeLeft)
    (hnone : ∀ proc left, next.cpus id ≠ .recheck (some proc) left) :
    ∀ level, os.sched.ready level = [] := by
  rcases Sched.getProc_cases os.sched with ⟨-, hempty⟩ |
    ⟨level, usedSlot, proc, rest, hready, hget⟩
  · exact hempty
  · change os.cpuStep config leftover id = some next at hstep
    unfold cpuStep at hstep
    generalize hat : os.cpus id = cpu at hcpu hstep
    cases hcpu with
    | idle =>
        simp only [cpuTop, hget] at hstep
        cases hstep
        exact absurd (cpus_setCpu_self _ _ _) (hnone _ _)
    | afterPut =>
        simp only [cpuGet, hget] at hstep
        cases hstep
        exact absurd (cpus_setCpu_self _ _ _) (hnone _ _)
    | afterFree =>
        simp only [cpuGet, hget] at hstep
        cases hstep
        exact absurd (cpus_setCpu_self _ _ _) (hnone _ _)

/-- A CPU stops at its second check, without a process, after `done` was set. -/
theorem done_of_stopped (hstep : os.step config (.cpu leftover id) = some next)
    (hstopped : next.cpus id = .stopped) :
    (∃ timeLeft, os.cpus id = .recheck none timeLeft) ∧ os.done = true := by
  have hself : ∀ {base : Os config.numCpus} {cpu : Cpu},
      (base.setCpu id cpu).cpus id = .stopped → cpu = .stopped :=
    fun hstop => (cpus_setCpu_self ..).symm.trans hstop
  cases move_of_step hstep with
  | stop hcpu =>
      refine ⟨⟨_, hcpu⟩, ?_⟩
      change os.cpuStep config leftover id = _ at hstep
      simp only [cpuStep, hcpu, cpuRecheck] at hstep
      split at hstep
      next hdone => exact hdone
      next =>
        rw [Runs.toOption_eq_some_iff] at hstep
        rw [← Except.ok.inj hstep] at hstopped
        cases hself hstopped
  | idle hcpu => rw [hcpu] at hstopped; cases hstopped
  | _ => cases hself hstopped

/-- Inserting a process empties no ready queue, and leaves its own one occupied. -/
theorem ready_ne_nil_of_inserted {prio : Nat → Nat} {sched after : Sched Nat} {proc : Nat}
    (hinserted : Sched.Inserted prio sched proc after) :
    (∀ level, sched.ready level ≠ [] → after.ready level ≠ []) ∧
      ∃ level, after.ready level ≠ [] := by
  obtain ⟨hprio, hready⟩ := hinserted
  refine ⟨fun level hlevel => ?_, ⟨prio proc, hprio⟩, ?_⟩
  · rw [hready]
    split
    next => exact List.append_ne_nil_of_left_ne_nil hlevel _
    next => exact hlevel
  · rw [hready]
    split
    next => exact List.append_ne_nil_of_right_ne_nil _ (List.cons_ne_nil _ _)
    -- a process is refused where the queue is full
    next hfull =>
      intro hempty
      rw [hempty] at hfull
      exact hfull ⟨rfl, by decide⟩

/-- A step of a CPU empties a ready queue only by taking its process. -/
theorem Move.ready_kept (hmove : Move os (.cpu leftover id) next) :
    (∀ level, os.sched.ready level ≠ [] → next.sched.ready level ≠ []) ∨
      ∃ proc, (next.cpus id).due = some proc := by
  cases hmove with
  | @get _ _ timeLeft level usedSlot proc rest hcpu hready =>
      refine Or.inr ⟨proc, ?_⟩
      rw [cpus_setCpu_self]
      rfl
  | putReady hcpu hput =>
      exact Or.inl (ready_ne_nil_of_inserted (Sched.ready_enqueueReady hput)).1
  | _ => exact Or.inl fun _ hlevel => hlevel

end Os

/-- The slot in which the last process is added. -/
def TimedConfig.lastArrival (config : TimedConfig) : Nat :=
  config.arrival (config.numProcesses - 1)

/-- The calls of `run` that all processes need together. -/
def Config.workload (config : Config) : Nat :=
  ∑ proc ∈ Finset.range config.numProcesses, config.need proc

/-- What the bounds ask of a configuration: a CPU and a quantum, room for all processes in a
ready queue, and that `_time` does not wrap around before the last of them is added. -/
structure TimedConfig.Feasible (config : TimedConfig) : Prop where
  numCpus_pos : 0 < config.numCpus
  timeSlot_pos : 0 < config.timeSlot
  numProcesses_le : config.numProcesses ≤ maxQueueSize
  arrival_lt : ∀ proc < config.numProcesses, config.arrival proc < 2 ^ 64

theorem TimedConfig.arrival_le_lastArrival {config : TimedConfig} {proc : Nat}
    (hproc : proc < config.numProcesses) : config.arrival proc ≤ config.lastArrival := by
  rcases Nat.lt_or_eq_of_le (Nat.le_sub_one_of_lt hproc) with hlt | heq
  · exact (arrival_lt_of_lt hlt).le
  · rw [lastArrival, ← heq]

namespace TimedOs

variable {config : TimedConfig} {state next : TimedOs config.numCpus}

/-- The calls of `run` for the process in the slots before the given one. -/
def callsBefore {numCpus : Nat} (state : TimedOs numCpus) (slot proc : Nat) : Nat :=
  ((state.turnsOf proc).filter fun turn => turn.slot < slot).length

/-- Some CPU ran a process in the slot, or all processes that had arrived before it had had
all their turns before it. -/
def SlotUsed (state : TimedOs config.numCpus) (slot : Nat) : Prop :=
  (∃ turn ∈ state.turns, turn.slot = slot) ∨
    ∀ proc < config.numProcesses, config.arrival proc < slot →
      config.need proc ≤ state.callsBefore slot proc

/-- A CPU that has not left the current slot, and will not leave it before it has run a
process: it holds one with calls left, or one is there to be fetched. -/
structure Engaged (state : TimedOs config.numCpus) (id : Fin config.numCpus) : Prop where
  current : state.slotOf (.cpu id) ≤ state.timer.ticks
  running : state.os.cpus id ≠ .stopped
  looking : ∀ timeLeft, state.os.cpus id ≠ .recheck none timeLeft
  work : (∃ level, state.os.sched.ready level ≠ []) ∨
    ∃ proc, (state.os.cpus id).proc = some proc ∧ state.calls proc < config.need proc

/-- No slot is wasted, and a CPU is left while there is work. -/
structure Busy (state : TimedOs config.numCpus) : Prop where
  work : state.WorkLeft
  closing : state.os.Closing
  running : (∃ proc < config.numProcesses, state.calls proc < config.need proc) →
    ∃ id, state.os.cpus id ≠ .stopped
  past : ∀ slot < state.timer.ticks, state.SlotUsed slot
  current : state.SlotUsed state.timer.ticks ∨ ∃ id, state.Engaged id

theorem busy_start (hcpus : 0 < config.numCpus) (mm : MmStruct) (mram activeMswp : MemphyStruct) :
    (start mm mram activeMswp : TimedOs config.numCpus).Busy where
  work := workLeft_start mm mram activeMswp
  closing := Os.closing_start mm mram activeMswp
  running _ := ⟨⟨0, hcpus⟩, nofun⟩
  past _ hslot := absurd hslot (Nat.not_lt_zero _)
  current := Or.inl (Or.inr fun _ _ harrival => absurd harrival (Nat.not_lt_zero _))

theorem callsBefore_le (state : TimedOs config.numCpus) (slot proc : Nat) :
    state.callsBefore slot proc ≤ state.calls proc := List.length_filter_le _ _

theorem callsBefore_mono (state : TimedOs config.numCpus) {slot later : Nat} (hle : slot ≤ later)
    (proc : Nat) : state.callsBefore slot proc ≤ state.callsBefore later proc := by
  unfold callsBefore
  refine (List.monotone_filter_right _ fun turn hslot => ?_).length_le
  exact decide_eq_true ((of_decide_eq_true hslot).trans_le hle)

/-- More turns only add to what was used. -/
theorem SlotUsed.append {slot : Nat} {turns : List (Turn config.numCpus)}
    (hused : state.SlotUsed slot) (hturns : next.turns = state.turns ++ turns) :
    next.SlotUsed slot := by
  rcases hused with ⟨turn, hturn, hslot⟩ | hall
  · exact Or.inl ⟨turn, hturns ▸ List.mem_append_left _ hturn, hslot⟩
  · refine Or.inr fun proc hproc harrival => ?_
    refine (hall proc hproc harrival).trans ?_
    unfold callsBefore turnsOf
    rw [hturns, List.filter_append, List.filter_append, List.length_append]
    exact Nat.le_add_right _ _

/-! ## The bound on the time -/

theorem WorkLeft.proc_lt_of_turn (hwork : state.WorkLeft) {turn : Turn config.numCpus}
    (hturn : turn ∈ state.turns) : turn.proc < config.numProcesses := by
  have howned := hwork.ontime.paced.coupled.owned
  refine Nat.lt_of_lt_of_le (Nat.lt_of_not_le fun hle => ?_) howned.i_le
  exact (calls_pos_of_mem hturn).ne' (hwork.unadded turn.proc hle)

theorem WorkLeft.calls_le_need (hwork : state.WorkLeft) (proc : Nat) :
    state.calls proc ≤ config.need proc := by
  rcases Nat.lt_or_ge proc state.os.loader.i with hadded | hpending
  · exact hwork.calls_le hadded
  · rw [hwork.unadded proc hpending]
    exact Nat.zero_le _

/-- While a process has calls left, the slots after the last arrival are all used, so they
are bounded. -/
theorem Busy.slot_le (hbusy : state.Busy) {proc slot : Nat} (hproc : proc < config.numProcesses)
    (hslot : slot ≤ state.timer.ticks) (hpending : state.callsBefore slot proc < config.need proc) :
    slot ≤ config.lastArrival + config.workload := by
  have hserved : ∀ wanted, Conserving.served Turn.proc
      (state.turns.filter fun turn => turn.slot < slot) wanted = state.callsBefore slot wanted :=
    fun wanted => congrArg List.length (List.filter_comm ..)
  have hlt : slot < config.lastArrival + 1 + config.workload := by
    refine Conserving.lt_of_waiting Turn.slot Turn.proc
      (fun turn hturn => hbusy.work.proc_lt_of_turn (List.mem_filter.mp hturn).1)
      (fun wanted _ => ?_) ⟨proc, hproc, (hserved proc).trans_lt hpending⟩
      fun time hfirst hlast => ?_
    · rw [hserved]
      exact (state.callsBefore_le slot wanted).trans (hbusy.work.calls_le_need wanted)
    · rcases hbusy.past time (hlast.trans_le hslot) with ⟨turn, hturn, rfl⟩ | hall
      · exact ⟨turn, List.mem_filter.mpr ⟨hturn, decide_eq_true hlast⟩, rfl⟩
      · have harrival := TimedConfig.arrival_le_lastArrival hproc
        have hneed := hall proc hproc (by omega)
        exact absurd (hneed.trans (state.callsBefore_mono hlast.le proc))
          (Nat.not_le.mpr hpending)
  omega

theorem Busy.ticks_le (hbusy : state.Busy) {proc : Nat} (hproc : proc < config.numProcesses)
    (hpending : state.calls proc < config.need proc) :
    state.timer.ticks ≤ config.lastArrival + config.workload :=
  hbusy.slot_le hproc (Nat.le_refl _) ((state.callsBefore_le _ proc).trans_lt hpending)

/-- A turn is within the bound, since its process had calls left before it. -/
theorem Busy.turn_le (hbusy : state.Busy) {turn : Turn config.numCpus}
    (hturn : turn ∈ state.turns) : turn.slot ≤ config.lastArrival + config.workload := by
  refine hbusy.slot_le (hbusy.work.proc_lt_of_turn hturn)
    (hbusy.work.ontime.paced.slot_le hturn) ?_
  refine Nat.lt_of_lt_of_le ?_ (hbusy.work.calls_le_need turn.proc)
  refine List.length_filter_lt_length_iff_exists.mpr ⟨turn, ?_, ?_⟩
  · exact List.mem_filter.mpr ⟨hturn, decide_eq_true rfl⟩
  · simp only [Nat.lt_irrefl, decide_false, Bool.false_eq_true, not_false_eq_true]

/-! ## Steps of the loader and of the timer -/

theorem calls_congr (hturns : next.turns = state.turns) (proc : Nat) :
    next.calls proc = state.calls proc := by
  unfold calls turnsOf
  rw [hturns]

/-- A step in which no CPU moves and the time stays. -/
theorem Busy.frame (hbusy : state.Busy) (hwork : next.WorkLeft) (hclosing : next.os.Closing)
    (hturns : next.turns = state.turns) (hticks : next.timer.ticks = state.timer.ticks)
    (hcpus : next.os.cpus = state.os.cpus)
    (hready : ∀ level, state.os.sched.ready level ≠ [] → next.os.sched.ready level ≠ [])
    (hslots : ∀ id, next.slotOf (.cpu id) = state.slotOf (.cpu id)) : next.Busy := by
  have hused : ∀ slot, state.SlotUsed slot → next.SlotUsed slot := fun slot hused =>
    hused.append (hturns.trans (List.append_nil _).symm)
  refine
    { work := hwork, closing := hclosing, running := fun hpending => ?_
      past := fun slot hslot => hused slot (hbusy.past slot (hticks ▸ hslot)), current := ?_ }
  · rw [hcpus]
    simp only [calls_congr hturns] at hpending
    exact hbusy.running hpending
  · rw [hticks]
    refine hbusy.current.imp (hused _) fun ⟨id, hengaged⟩ => ⟨id, ?_⟩
    refine
      { current := ?_, running := ?_, looking := ?_
        work := hengaged.work.imp (fun ⟨level, hlevel⟩ => ⟨level, hready level hlevel⟩) ?_ }
    · rw [hslots, hticks]
      exact hengaged.current
    · rw [hcpus]
      exact hengaged.running
    · rw [hcpus]
      exact hengaged.looking
    · rw [hcpus]
      simp only [calls_congr hturns]
      exact fun hheld => hheld

/-- A process with calls left that has arrived waits or is held. -/
theorem WorkLeft.placed_of_pending (hwork : state.WorkLeft)
    (hcount : config.numProcesses ≤ maxQueueSize) {proc : Nat}
    (hadded : proc < state.os.loader.i) (hpending : state.calls proc < config.need proc) :
    (∃ level, state.os.sched.ready level ≠ []) ∨
      ∃ id, (state.os.cpus id).proc = some proc := by
  have hplaced := hwork.ontime.paced.coupled.owned.placed_of_le hcount
  rcases (hplaced.added_iff proc).mp (List.mem_range.mpr hadded) with
    ⟨level, hready⟩ | hheld | hrefused | htransit
  · exact Or.inl ⟨level, List.ne_nil_of_mem hready⟩
  · rcases List.mem_append.mp hheld with hheld | hfreed
    · exact Or.inr (Os.mem_held.mp hheld)
    · exact absurd (hwork.freed_ge proc hfreed) (Nat.not_le.mpr hpending)
  · cases hrefused
  · cases htransit

/-- When the time advances, every CPU that has not stopped is at the head of its loop, and
one of them is engaged in the new slot. -/
theorem Busy.tick (hcount : config.numProcesses ≤ maxQueueSize) (hbusy : state.Busy)
    (hwork : next.WorkLeft) (hos : next.os = state.os) (hturns : next.turns = state.turns)
    (hslots : ∀ device, next.slotOf device = state.slotOf device)
    (hticks : next.timer.ticks = state.timer.ticks + 1)
    (hall : ∀ device, state.exited device = false →
      state.slotOf device = state.timer.ticks + 1) : next.Busy := by
  have hused : ∀ slot, state.SlotUsed slot → next.SlotUsed slot := fun slot hused =>
    hused.append (hturns.trans (List.append_nil _).symm)
  have hcurrent : state.SlotUsed state.timer.ticks :=
    hbusy.current.resolve_right fun ⟨id, hengaged⟩ => by
      have hslot := hall (.cpu id) (exited_cpu_of_ne hengaged.running)
      have hle := hengaged.current
      omega
  have hengaged : ∀ id, state.os.cpus id ≠ .stopped →
      ((∃ level, state.os.sched.ready level ≠ []) ∨
        ∃ proc, (state.os.cpus id).proc = some proc ∧ state.calls proc < config.need proc) →
      next.Engaged id := by
    intro id hrunning hwork
    have hslot := hall (.cpu id) (exited_cpu_of_ne hrunning)
    have hhead := hbusy.work.ontime.paced.coupled.atHead_of_slotOf hrunning (by omega)
    refine { current := ?_, running := hos ▸ hrunning, looking := ?_, work := ?_ }
    · rw [hslots, hticks, hslot]
    · rw [hos]
      rintro timeLeft hrecheck
      rw [hrecheck] at hhead
      cases hhead
    · simp only [hos, calls_congr hturns]
      exact hwork
  refine
    { work := hwork, closing := hos ▸ hbusy.closing, running := fun hpending => ?_
      past := fun slot hslot => ?_, current := ?_ }
  · rw [hos]
    simp only [calls_congr hturns] at hpending
    exact hbusy.running hpending
  · rw [hticks] at hslot
    rcases Nat.lt_or_eq_of_le (Nat.le_of_lt_succ hslot) with hlt | rfl
    · exact hused slot (hbusy.past slot hlt)
    · exact hused _ hcurrent
  · by_cases hpending : ∃ proc < config.numProcesses,
        config.arrival proc < next.timer.ticks ∧ next.calls proc < config.need proc
    · obtain ⟨proc, hproc, harrival, hlt⟩ := hpending
      have hadded := hwork.ontime.added_of_arrival_lt hproc harrival
      rcases hwork.placed_of_pending hcount hadded hlt with hready | ⟨id, hheld⟩
      · rw [calls_congr hturns] at hlt
        obtain ⟨id, hrunning⟩ := hbusy.running ⟨proc, hproc, hlt⟩
        exact Or.inr ⟨id, hengaged id hrunning (Or.inl (hos ▸ hready))⟩
      · rw [hos] at hheld
        rw [calls_congr hturns] at hlt
        refine Or.inr ⟨id, hengaged id (fun hstopped => ?_) (Or.inr ⟨proc, hheld, hlt⟩)⟩
        rw [hstopped] at hheld
        cases hheld
    · refine Or.inl (Or.inr fun proc hproc harrival => ?_)
      have hdone : config.need proc ≤ next.calls proc :=
        Nat.le_of_not_lt fun hlt => hpending ⟨proc, hproc, harrival, hlt⟩
      -- all turns so far were in slots before this one
      have hbefore : next.callsBefore next.timer.ticks proc = next.calls proc := by
        unfold callsBefore calls
        congr 1
        refine List.filter_eq_self.mpr fun turn hturn => decide_eq_true ?_
        have hmem := (List.mem_filter.mp hturn).1
        rw [hturns] at hmem
        have hle := hbusy.work.ontime.paced.slot_le hmem
        omega
      rw [hbefore]
      exact hdone

/-! ## Steps of a CPU -/

section

variable {leftover : Leftover} {id : Fin config.numCpus} {os : Os config.numCpus}

theorem calls_le_afterCpu (proc : Nat) : state.calls proc ≤ (state.afterCpu id os).calls proc := by
  unfold calls turnsOf
  change _ ≤ ((state.turns ++ _).filter _).length
  rw [List.filter_append, List.length_append]
  exact Nat.le_add_right _ _

/-- Only the process that a CPU runs has a turn more. -/
theorem calls_afterCpu_of_held (howned : state.os.Owned) {other : Fin config.numCpus}
    {proc : Nat} (hheld : (state.os.cpus other).proc = some proc) (hother : other ≠ id) :
    (state.afterCpu id os).calls proc = state.calls proc := by
  rcases (state.os.cpus id).turn_cases state.timer.ticks id with
    ⟨which, timeLeft, hcpu, -⟩ | ⟨hquiet, -⟩
  · rw [calls_afterCpu_of_recheck hcpu, if_neg, Nat.add_zero]
    rintro rfl
    exact hother (howned.holder_unique hheld (by rw [hcpu]; rfl))
  · exact calls_congr (turns_afterCpu_of_quiet hquiet) proc

/-- A CPU that goes on without calling `next_slot` stays in its slot. -/
theorem slotOf_afterCpu_le (hcoupled : state.Coupled) (hfree : state.Free (.cpu id))
    (hhead : (os.cpus id).atHead = false) :
    (state.afterCpu id os).slotOf (.cpu id) ≤ state.timer.ticks := by
  rw [slotOf_afterCpu_self hfree, hhead]
  exact hcoupled.slotOf_le_of_free hfree

theorem WorkLeft.engaged_of_due {proc : Nat} (hwork : (state.afterCpu id os).WorkLeft)
    (hcoupled : state.Coupled) (hfree : state.Free (.cpu id))
    (hdue : (os.cpus id).due = some proc) : (state.afterCpu id os).Engaged id where
  current := slotOf_afterCpu_le hcoupled hfree (by
    cases hcpu : os.cpus id <;> rw [hcpu] at hdue <;> first | rfl | cases hdue)
  running hstopped := by
    change os.cpus id = .stopped at hstopped
    rw [hstopped] at hdue
    cases hdue
  looking timeLeft hrecheck := by
    change os.cpus id = .recheck none timeLeft at hrecheck
    rw [hrecheck] at hdue
    cases hdue
  work := Or.inr ⟨proc, Os.proc_of_due hdue, hwork.due_lt proc (Or.inr ⟨id, hdue⟩)⟩

/-- What one CPU does leaves another engaged, or engages it instead. -/
theorem Engaged.other_step {other : Fin config.numCpus} (hengaged : state.Engaged other)
    (hother : other ≠ id) (hwork : (state.afterCpu id os).WorkLeft) (hcoupled : state.Coupled)
    (hfree : state.Free (.cpu id)) (hmove : Os.Move state.os (.cpu leftover id) os) :
    (state.afterCpu id os).Engaged other ∨ (state.afterCpu id os).Engaged id := by
  have hkept : os.cpus other = state.os.cpus other := by
    rw [hmove.cpu_frame.2.2]
    exact Function.update_of_ne hother _ _
  rcases hmove.ready_kept with hready | ⟨proc, hdue⟩
  · refine Or.inl
      { current := ?_, running := ?_, looking := ?_
        work := hengaged.work.imp (fun ⟨level, hlevel⟩ => ⟨level, hready level hlevel⟩) ?_ }
    · rw [slotOf_afterCpu_of_ne fun heq => hother (Device.cpu.inj heq)]
      exact hengaged.current
    · exact hkept ▸ hengaged.running
    · exact hkept ▸ hengaged.looking
    · rintro ⟨proc, hheld, hlt⟩
      refine ⟨proc, hkept ▸ hheld, ?_⟩
      rwa [calls_afterCpu_of_held hcoupled.owned hheld hother]
  · exact Or.inr (hwork.engaged_of_due hcoupled hfree hdue)

/-- An engaged CPU stays engaged until it runs a process. -/
theorem Engaged.own_step (hengaged : state.Engaged id) (hwas : state.WorkLeft)
    (hwork : (state.afterCpu id os).WorkLeft) (hfree : state.Free (.cpu id))
    (hstep : state.os.step config.toConfig (.cpu leftover id) = some os) :
    (state.afterCpu id os).SlotUsed state.timer.ticks ∨ (state.afterCpu id os).Engaged id := by
  have hcoupled := hwas.ontime.paced.coupled
  have hmove := Os.move_of_step hstep
  have hdue : ∀ proc, (os.cpus id).due = some proc → (state.afterCpu id os).Engaged id :=
    fun proc => hwork.engaged_of_due hcoupled hfree
  -- a CPU that finds no process was not engaged
  have hnothing : ∀ timeLeft, Os.Fetching (state.os.cpus id) timeLeft →
      (∀ proc left, os.cpus id ≠ .recheck (some proc) left) → False := by
    intro timeLeft hcpu hnone
    have hempty := Os.ready_empty_of_step hstep hcpu hnone
    rcases hengaged.work with ⟨level, hlevel⟩ | ⟨proc, hheld, -⟩
    · exact hlevel (hempty level)
    · rw [Os.proc_of_fetching hcpu] at hheld
      cases hheld
  have hturn : ∀ proc timeLeft, state.os.cpus id = .recheck (some proc) timeLeft →
      (state.afterCpu id os).SlotUsed state.timer.ticks := fun proc timeLeft hcpu =>
    Or.inl ⟨{ slot := state.timer.ticks, id := id, proc := proc },
      List.mem_append_right _ (by rw [hcpu]; exact List.mem_singleton_self _), rfl⟩
  cases hmove with
  | @idle _ _ timeLeft hcpu =>
      have hfetching : Os.Fetching (state.os.cpus id) timeLeft := hcpu ▸ .idle timeLeft
      exact (hnothing timeLeft hfetching (hcpu ▸ nofun)).elim
  | get hcpu hready => exact Or.inr (hdue _ (by rw [Os.cpus_setCpu_self]; rfl))
  | getNone hcpu =>
      exact (hnothing _ hcpu fun proc left => by rw [Os.cpus_setCpu_self]; nofun).elim
  | @finish _ _ proc timeLeft hcpu halive hend =>
      have hran : (state.os.cpus id).ran = some proc := by rw [hcpu]; rfl
      refine Or.inr
        { current := slotOf_afterCpu_le hcoupled hfree (by rw [Os.cpus_setCpu_self]; rfl)
          running := ?_, looking := ?_, work := Or.inl ?_ }
      · change (Os.setCpu _ id _).cpus id ≠ _
        rw [Os.cpus_setCpu_self]
        nofun
      · intro left
        change (Os.setCpu _ id _).cpus id ≠ _
        rw [Os.cpus_setCpu_self]
        nofun
      -- the process has had its calls, so there is another one to be fetched
      · refine hengaged.work.resolve_right fun ⟨other, hheld, hlt⟩ => ?_
        rw [Os.proc_of_ran hran, Option.some.injEq] at hheld
        subst hheld
        exact (hwas.calls_lt_iff_of_ran hran).mp hlt hend
  | put hcpu halive hpc => exact Or.inr (hdue _ (by rw [Os.cpus_setCpu_self]; rfl))
  | pass hcpu halive hpc htime => exact Or.inr (hdue _ (by rw [Os.cpus_setCpu_self]; rfl))
  | putReady hcpu hput =>
      refine Or.inr
        { current := slotOf_afterCpu_le hcoupled hfree (by rw [Os.cpus_setCpu_self]; rfl)
          running := ?_, looking := ?_
          work := Or.inl (Os.ready_ne_nil_of_inserted (Sched.ready_enqueueReady hput)).2 }
      · change (Os.setCpu _ id _).cpus id ≠ _
        rw [Os.cpus_setCpu_self]
        nofun
      · intro left
        change (Os.setCpu _ id _).cpus id ≠ _
        rw [Os.cpus_setCpu_self]
        nofun
  | stop hcpu => exact absurd hcpu (hengaged.looking _)
  | again hcpu => exact absurd hcpu (hengaged.looking _)
  | runPastEnd hcpu halive hend => exact Or.inl (hturn _ _ hcpu)
  | run hcpu halive hins hexecute => exact Or.inl (hturn _ _ hcpu)

/-- A CPU stops after all processes have arrived, so it leaves no work without a CPU. -/
theorem Busy.running_step (hbusy : state.Busy)
    (hstep : state.os.step config.toConfig (.cpu leftover id) = some os) {proc : Nat}
    (hproc : proc < config.numProcesses) (hpending : state.calls proc < config.need proc) :
    ∃ other, os.cpus other ≠ .stopped := by
  by_cases hstopped : os.cpus id = .stopped
  · obtain ⟨⟨timeLeft, hcpu⟩, hdone⟩ := Os.done_of_stopped hstep hstopped
    have harrival := hbusy.work.ontime.arrival_lt_of_stopped (hbusy.closing.done_stopped hdone)
      hproc
    have hkept : ∀ other, other ≠ id → os.cpus other = state.os.cpus other := fun other hne => by
      rw [(Os.move_of_step hstep).cpu_frame.2.2]
      exact Function.update_of_ne hne _ _
    rcases hbusy.current with hused | ⟨other, hengaged⟩
    · rcases hused with ⟨turn, hturn, hslot⟩ | hall
      -- the CPU that ran a process in this slot still holds it
      · have hheld := hbusy.work.ontime.paced.holding turn hturn hslot
        have hne : turn.id ≠ id := by
          rintro rfl
          rw [hcpu] at hheld
          cases hheld
        refine ⟨turn.id, fun hstop => ?_⟩
        rw [hkept turn.id hne] at hstop
        rw [hstop] at hheld
        cases hheld
      · have hneed := hall proc hproc harrival
        exact absurd (hneed.trans (state.callsBefore_le _ proc)) (Nat.not_le.mpr hpending)
    · have hne : other ≠ id := by
        rintro rfl
        exact hengaged.looking timeLeft hcpu
      exact ⟨other, hkept other hne ▸ hengaged.running⟩
  · exact ⟨id, hstopped⟩

theorem Busy.cpu_step (hbusy : state.Busy) (hwork : (state.afterCpu id os).WorkLeft)
    (hfree : state.Free (.cpu id))
    (hstep : state.os.step config.toConfig (.cpu leftover id) = some os) :
    (state.afterCpu id os).Busy := by
  have hmove := Os.move_of_step hstep
  have hcoupled := hbusy.work.ontime.paced.coupled
  have hused : ∀ slot, state.SlotUsed slot → (state.afterCpu id os).SlotUsed slot :=
    fun slot hused => hused.append rfl
  refine
    { work := hwork, closing := hbusy.closing.move hmove, running := ?_
      past := fun slot hslot => hused slot (hbusy.past slot hslot), current := ?_ }
  · rintro ⟨proc, hproc, hpending⟩
    exact hbusy.running_step hstep hproc ((calls_le_afterCpu proc).trans_lt hpending)
  · rcases hbusy.current with hnow | ⟨other, hengaged⟩
    · exact Or.inl (hused _ hnow)
    · by_cases hsame : other = id
      · subst hsame
        exact (hengaged.own_step hbusy.work hwork hfree hstep).imp_right fun hown => ⟨other, hown⟩
      · exact Or.inr ((hengaged.other_step hsame hwork hcoupled hfree hmove).elim
          (fun hkept => ⟨other, hkept⟩) fun hown => ⟨id, hown⟩)

end

/-! ## Runs -/

theorem loader_ready_ne_nil {garbage : ListEnd} {os : Os config.numCpus}
    (hmove : Os.Move state.os (.loader garbage) os) (level : Fin maxPrio)
    (hlevel : state.os.sched.ready level ≠ []) : os.sched.ready level ≠ [] := by
  cases hmove with
  | load hloader hi => exact hlevel
  | loaded hloader => exact hlevel
  | addRunning hloader => exact hlevel
  | addReady hloader hadd =>
      exact (Os.ready_ne_nil_of_inserted (Sched.ready_enqueueReady hadd)).1 level hlevel

theorem Busy.act (hcount : config.numProcesses ≤ maxQueueSize) (hbusy : state.Busy)
    (hwork : next.WorkLeft) (hact : state.Act next) : next.Busy := by
  cases hact with
  | cpu hfree hstep => exact hbusy.cpu_step hwork hfree hstep
  | loader hfree htime hadds hstep =>
      have hmove := Os.move_of_step hstep
      exact hbusy.frame hwork (hbusy.closing.move hmove) rfl rfl hmove.loader_frame.1
        (loader_ready_ne_nil hmove) fun id => slotOf_setCalling_of_ne nofun
  | adds hfree hadds hstep =>
      have hmove := Os.move_of_step hstep
      exact hbusy.frame hwork (hbusy.closing.move hmove) rfl rfl hmove.loader_frame.1
        (loader_ready_ne_nil hmove) fun id => slotOf_setCalling_of_ne nofun
  | hold hfree hearly =>
      exact hbusy.frame hwork hbusy.closing rfl rfl rfl (fun _ hlevel => hlevel)
        fun id => slotOf_setCalling_of_ne nofun
  | clock hos hturns harrivals hslots hticks =>
      rcases hticks with hticks | ⟨hticks, hall⟩
      · exact hbusy.frame hwork (hos ▸ hbusy.closing) hturns hticks (by rw [hos])
          (fun _ hlevel => hos ▸ hlevel) fun id => hslots _
      · exact hbusy.tick hcount hwork hos hturns hslots hticks hall

theorem Busy.move (hfeasible : config.Feasible) (hbusy : state.Busy) (hmove : state.Move next) :
    next.Busy := by
  have hontime := hbusy.work.ontime
  have hact := hontime.paced.coupled.act hmove
  exact hbusy.act hfeasible.numProcesses_le (hbusy.work.act hfeasible.timeSlot_pos
    (hontime.move hfeasible.arrival_lt hmove) hact) hact

theorem busy_of_visited (hfeasible : config.Feasible) (mm : MmStruct)
    (mram activeMswp : MemphyStruct) (events : List (TimedEvent config.numCpus)) :
    ∀ state ∈ Runs.visited (step config) (start mm mram activeMswp) events, state.Busy :=
  Runs.visited_invariant Busy (fun _ => True)
    (fun _ _ _ _ hbusy hstep => hbusy.move hfeasible (move_of_step hstep)) (fun _ _ => trivial)
    (busy_start hfeasible.numCpus_pos mm mram activeMswp)

/-- No CPU power is wasted: in every slot that has passed some CPU ran a process, or all
processes that had arrived before the slot had had all their turns by then. -/
theorem visited_slotUsed (config : TimedConfig) (hfeasible : config.Feasible) (mm : MmStruct)
    (mram activeMswp : MemphyStruct) (events : List (TimedEvent config.numCpus)) :
    ∀ state ∈ Runs.visited (step config) (start mm mram activeMswp) events,
      ∀ slot < state.timer.ticks, state.SlotUsed slot := by
  intro state hstate
  exact (busy_of_visited hfeasible mm mram activeMswp events state hstate).past

theorem feasible_one_job : oneJob.Feasible where
  numCpus_pos := by decide
  timeSlot_pos := by decide
  numProcesses_le := by decide
  arrival_lt := arrival_lt_one_job

/-- Four slots pass, and the turn is in the third. -/
theorem visited_slotUsed_one_job :
    ∃ state, Runs.run (step oneJob)
        (start (initMm .null) singleProcess.mram singleProcess.activeMswp) oneJobEvents =
          some state ∧ state.timer.ticks = 4 ∧ ∀ slot < state.timer.ticks, state.SlotUsed slot := by
  have hfinal : (Runs.run (step oneJob)
      (start (initMm .null) singleProcess.mram singleProcess.activeMswp) oneJobEvents).map
        (fun state => state.timer.ticks) = some 4 := by
    decide +kernel
  obtain ⟨state, hrun, hticks⟩ := Option.map_eq_some_iff.mp hfinal
  exact ⟨state, hrun, hticks, visited_slotUsed oneJob feasible_one_job _ _ _ _ state
    (Runs.mem_visited_iff.mpr ⟨_, List.prefix_rfl, hrun⟩)⟩

/-- A process that has had all its turns was freed, or is still with the CPU that ran it. -/
theorem WorkLeft.freed_or_ran (hwork : state.WorkLeft)
    (hcount : config.numProcesses ≤ maxQueueSize) {proc : Nat}
    (hdone : config.need proc ≤ state.calls proc) :
    proc ∈ state.os.freed ∨ ∃ id, (state.os.cpus id).ran = some proc := by
  have hadded : proc < state.os.loader.i := by
    refine Nat.lt_of_not_le fun hle => ?_
    rw [hwork.unadded proc hle] at hdone
    exact absurd ((Nat.le_max_left 1 _).trans hdone) (by decide)
  have hnotDue : ¬ state.os.Due proc := fun hdue =>
    absurd hdone (Nat.not_le.mpr (hwork.due_lt proc hdue))
  have hplaced := hwork.ontime.paced.coupled.owned.placed_of_le hcount
  rcases (hplaced.added_iff proc).mp (List.mem_range.mpr hadded) with
    ⟨level, hready⟩ | hheld | hrefused | htransit
  · exact absurd (Or.inl ⟨level, hready⟩) hnotDue
  · rcases List.mem_append.mp hheld with hheld | hfreed
    · obtain ⟨id, hid⟩ := Os.mem_held.mp hheld
      exact Or.inr ⟨id, (Os.due_or_ran_of_proc hid).resolve_left fun hdue =>
        hnotDue (Or.inr ⟨id, hdue⟩)⟩
    · exact Or.inl hfreed
  · cases hrefused
  · cases htransit

theorem Busy.freed_of_ticks (hcount : config.numProcesses ≤ maxQueueSize) (hbusy : state.Busy)
    (hticks : config.lastArrival + config.workload + 2 ≤ state.timer.ticks) {proc : Nat}
    (hproc : proc < config.numProcesses) : proc ∈ state.os.freed := by
  have hdone : config.need proc ≤ state.calls proc := Nat.le_of_not_lt fun hpending => by
    have hle := hbusy.ticks_le hproc hpending
    omega
  refine (hbusy.work.freed_or_ran hcount hdone).resolve_right ?_
  rintro ⟨id, hran⟩
  -- its CPU is still in the slot after its last turn
  obtain ⟨turn, hturn, -, -, hslot⟩ := hbusy.work.ran id proc hran
  have hrunning : state.os.cpus id ≠ .stopped := fun hstopped => by
    rw [hstopped] at hran
    cases hran
  have hbehind := hbusy.work.ontime.paced.coupled.ticks_le_slotOf (exited_cpu_of_ne hrunning)
  have hbound := hbusy.turn_le hturn
  omega

/-- Every process is freed by the second slot after as many slots as there is work, counted
from the last arrival, on any number of CPUs and for any order of their steps. -/
theorem visited_freed_of_ticks (config : TimedConfig) (hfeasible : config.Feasible)
    (mm : MmStruct) (mram activeMswp : MemphyStruct) (events : List (TimedEvent config.numCpus)) :
    ∀ state ∈ Runs.visited (step config) (start mm mram activeMswp) events,
      config.lastArrival + config.workload + 2 ≤ state.timer.ticks →
        ∀ proc < config.numProcesses, proc ∈ state.os.freed := by
  intro state hstate hticks proc hproc
  have hbusy := busy_of_visited hfeasible mm mram activeMswp events state hstate
  exact hbusy.freed_of_ticks hfeasible.numProcesses_le hticks hproc

/-- The bound is reached in the fifth slot: the process is added in the second one and needs
one call. -/
theorem visited_freed_of_ticks_one_job :
    ∃ state, Runs.run (step oneJob)
        (start (initMm .null) singleProcess.mram singleProcess.activeMswp) oneJobEvents =
          some state ∧
      state.timer.ticks = 4 ∧ oneJob.lastArrival + oneJob.workload + 2 = 4 ∧
        ∀ proc < oneJob.numProcesses, proc ∈ state.os.freed := by
  have hfinal : (Runs.run (step oneJob)
      (start (initMm .null) singleProcess.mram singleProcess.activeMswp) oneJobEvents).map
        (fun state => state.timer.ticks) = some 4 := by
    decide +kernel
  obtain ⟨state, hrun, hticks⟩ := Option.map_eq_some_iff.mp hfinal
  have hbound : oneJob.lastArrival + oneJob.workload + 2 = 4 := by decide +kernel
  exact ⟨state, hrun, hticks, hbound, visited_freed_of_ticks oneJob feasible_one_job _ _ _ _ state
    (Runs.mem_visited_iff.mpr ⟨_, List.prefix_rfl, hrun⟩) (hbound.trans hticks.symm).le⟩

/-- The CPUs leave no process behind: when they have all stopped, all processes were freed. -/
theorem visited_freed_of_stopped (config : TimedConfig) (hfeasible : config.Feasible)
    (mm : MmStruct) (mram activeMswp : MemphyStruct) (events : List (TimedEvent config.numCpus)) :
    ∀ state ∈ Runs.visited (step config) (start mm mram activeMswp) events,
      (∀ id, state.os.cpus id = .stopped) →
        ∀ proc < config.numProcesses, proc ∈ state.os.freed := by
  intro state hstate hstopped proc hproc
  have hbusy := busy_of_visited hfeasible mm mram activeMswp events state hstate
  have hdone : config.need proc ≤ state.calls proc := Nat.le_of_not_lt fun hpending => by
    obtain ⟨id, hrunning⟩ := hbusy.running ⟨proc, hproc, hpending⟩
    exact hrunning (hstopped id)
  refine (hbusy.work.freed_or_ran hfeasible.numProcesses_le hdone).resolve_right ?_
  rintro ⟨id, hran⟩
  rw [hstopped id] at hran
  cases hran

/-- The CPU of the example has stopped at the end. -/
theorem visited_freed_of_stopped_one_job :
    ∃ state, Runs.run (step oneJob)
        (start (initMm .null) singleProcess.mram singleProcess.activeMswp) oneJobEvents =
          some state ∧
      (∀ id, state.os.cpus id = .stopped) ∧
        ∀ proc < oneJob.numProcesses, proc ∈ state.os.freed := by
  have hfinal : (Runs.run (step oneJob)
      (start (initMm .null) singleProcess.mram singleProcess.activeMswp) oneJobEvents).map
        (fun state => state.os.cpus ⟨0, by decide⟩) = some .stopped := by
    decide +kernel
  obtain ⟨state, hrun, hcpu⟩ := Option.map_eq_some_iff.mp hfinal
  have hstopped : ∀ id, state.os.cpus id = .stopped := fun id => by
    have hid : id = ⟨0, by decide⟩ := Fin.ext (Nat.lt_one_iff.mp id.isLt)
    rw [hid, hcpu]
  exact ⟨state, hrun, hstopped, visited_freed_of_stopped oneJob feasible_one_job _ _ _ _ state
    (Runs.mem_visited_iff.mpr ⟨_, List.prefix_rfl, hrun⟩) hstopped⟩

end TimedOs

end SimpleOs
