import SimpleOs.System.Shutdown
import SimpleOs.System.Turns

/-! # Who can take a step

The timer waits only for a device that is neither done nor detached, and the thread of such a
device can take a step of its own: the simulator has no deadlock. It stands still when it has
ended, or when a CPU is at an instruction that has no defined result.
-/

namespace SimpleOs

/-! ## What the timer has counted -/

namespace Timer

variable {numDevices : Nat} {timer next : Timer numDevices}

/-- All devices before a position of the list are detached. -/
def DetachedBelow (timer : Timer numDevices) (position : Nat) : Prop :=
  ∀ id : Fin numDevices, id.val < position → (timer.devices id).fsh = true

/-- What the counters of `timer_routine` tell: they agree only where it has found every device
detached, so it ends only when all are. -/
def Tally (timer : Timer numDevices) : TimerLocation → Prop
  | .loop => True
  | .scan position fsh event => fsh ≤ event ∧ (fsh = event → timer.DetachedBelow position)
  | .tick fsh event => fsh = event → timer.DetachedBelow numDevices
  | .release _ fsh event => fsh = event → timer.DetachedBelow numDevices
  | .stopped => timer.DetachedBelow numDevices

/-- The timer is also told to stop only when all devices are detached. -/
structure Tallied (timer : Timer numDevices) : Prop where
  tally : timer.Tally timer.location
  stopping : timer.timerStop = true → timer.DetachedBelow numDevices

theorem tallied_start : (start numDevices).Tallied where
  tally := trivial
  stopping := nofun

/-- Devices never attach again. -/
theorem DetachedBelow.mono {position : Nat} (hbelow : timer.DetachedBelow position)
    (hfsh : ∀ id, (timer.devices id).fsh = true → (next.devices id).fsh = true) :
    next.DetachedBelow position := fun id hid => hfsh id (hbelow id hid)

theorem Tally.mono {location : TimerLocation} (htally : timer.Tally location)
    (hfsh : ∀ id, (timer.devices id).fsh = true → (next.devices id).fsh = true) :
    next.Tally location := by
  cases location with
  | loop => trivial
  | scan position fsh event => exact ⟨htally.1, fun heq => (htally.2 heq).mono hfsh⟩
  | tick fsh event => exact fun heq => (htally heq).mono hfsh
  | release position fsh event => exact fun heq => (htally heq).mono hfsh
  | stopped => exact DetachedBelow.mono htally hfsh

/-- A step of `timer_routine` keeps the books. -/
theorem Tallied.tally_advance (htallied : timer.Tallied) (hadvance : timer.advance = some next) :
    timer.Tally next.location := by
  obtain ⟨htally, hstopping⟩ := htallied
  obtain ⟨location, time, ticks, timerStop, devices⟩ := timer
  unfold Timer.advance at hadvance
  cases location with
  | loop =>
      cases hadvance
      cases timerStop with
      | false => exact ⟨Nat.le_refl 0, fun _ _ hid => absurd hid (Nat.not_lt_zero _)⟩
      | true => exact hstopping rfl
  | scan position fsh event =>
      obtain ⟨hle, hbelow⟩ := htally
      simp only at hadvance
      split at hadvance
      next hposition =>
        split at hadvance
        next hseen =>
          cases hadvance
          cases hfsh : (devices ⟨position, hposition⟩).fsh with
          | false =>
              -- a device that is only done makes the counters differ for good
              have hlt : fsh < event + 1 := Nat.lt_succ_of_le hle
              simp only [Bool.false_eq_true, if_false]
              exact ⟨hlt.le, fun heq => absurd heq hlt.ne⟩
          | true =>
              simp only [if_true]
              refine ⟨Nat.succ_le_succ hle, fun heq id hid => ?_⟩
              rcases Nat.lt_or_eq_of_le (Nat.lt_succ_iff.mp hid) with hlt | hsame
              · exact hbelow (Nat.succ.inj heq) id hlt
              · obtain rfl : id = ⟨position, hposition⟩ := Fin.ext hsame
                exact hfsh
        next => cases hadvance
      next hend =>
        cases hadvance
        exact fun heq id hid => hbelow heq id (hid.trans_le (Nat.not_lt.mp hend))
  | tick fsh event =>
      cases hadvance
      exact htally
  | release position fsh event =>
      simp only at hadvance
      split at hadvance
      next hposition =>
        cases hadvance
        exact htally
      next =>
        cases hadvance
        simp only
        split
        next heq => exact htally heq
        next => trivial
  | stopped => cases hadvance

theorem Tallied.advance (htallied : timer.Tallied) (hadvance : timer.advance = some next) :
    next.Tallied := by
  have hfsh : ∀ id, (timer.devices id).fsh = true → (next.devices id).fsh = true :=
    fun id hid => by
      rw [devices_advance hadvance]
      exact hid
  exact
    { tally := (htallied.tally_advance hadvance).mono hfsh
      stopping := fun hstopping =>
        (htallied.stopping (timerStop_advance hadvance ▸ hstopping)).mono hfsh }

theorem Tallied.setDevice (htallied : timer.Tallied) {id : Fin numDevices} {device : TimerId}
    (hfsh : (timer.devices id).fsh = true → device.fsh = true) :
    (timer.setDevice id device).Tallied := by
  have hall : ∀ other, (timer.devices other).fsh = true →
      ((timer.setDevice id device).devices other).fsh = true := fun other hother => by
    change (Function.update timer.devices id device other).fsh = true
    by_cases hsame : other = id
    · subst hsame
      rw [Function.update_self]
      exact hfsh hother
    · rwa [Function.update_of_ne hsame]
  exact
    { tally := htallied.tally.mono hall
      stopping := fun hstopping => (htallied.stopping hstopping).mono hall }

/-- Where the timer cannot take a step, it waits for a device that is neither done nor
detached, or it has ended. -/
theorem stopped_or_waits (hadvance : timer.advance = none) :
    timer.location = .stopped ∨
      ∃ id, (timer.devices id).done = false ∧ (timer.devices id).fsh = false := by
  unfold advance at hadvance
  split at hadvance
  next => cases hadvance
  next position fsh event hlocation =>
    split at hadvance
    next hposition =>
      simp only at hadvance
      split at hadvance
      next => cases hadvance
      next hwaits =>
        rw [Bool.or_eq_true, not_or, Bool.not_eq_true, Bool.not_eq_true] at hwaits
        exact Or.inr ⟨_, hwaits⟩
    next => cases hadvance
  next => cases hadvance
  next =>
    split at hadvance
    next => cases hadvance
    next => cases hadvance
  next hstopped => exact Or.inl hstopped

end Timer

/-! ## What the threads can do -/

namespace Os

variable {config : Config} {os : Os config.numCpus}

/-- The CPU is at an instruction that has no defined result, whatever lies in memory that
nobody wrote. -/
def Faults (os : Os config.numCpus) (id : Fin config.numCpus) : Prop :=
  ∃ proc timeLeft ins, os.cpus id = .recheck (some proc) timeLeft ∧
    (os.pcbs proc).code[(os.pcbs proc).pc]? = some ins ∧
    ∀ leftover : Leftover, ∃ fault, ins.execute ((os.advance proc).readPid leftover) leftover.junk
      os.krnl (os.pcbs proc).pid = .error fault

theorem Owned.prio_lt (hprio : ∀ proc < config.numProcesses, config.prio proc < maxPrio)
    (howned : os.Owned) {id : Fin config.numCpus} {proc : Nat}
    (hheld : (os.cpus id).proc = some proc) : config.prio proc < maxPrio :=
  hprio proc ((howned.added_of_held (Or.inl (mem_held.mpr ⟨id, hheld⟩))).trans_le howned.i_le)

/-- A CPU that has not stopped can take its step, except at such an instruction. -/
theorem Owned.cpu_step_or_faults
    (hprio : ∀ proc < config.numProcesses, config.prio proc < maxPrio) (howned : os.Owned)
    {id : Fin config.numCpus} (hrunning : os.cpus id ≠ .stopped) :
    (∃ leftover next, os.step config (.cpu leftover id) = some next) ∨ os.Faults id := by
  change (∃ leftover next, os.cpuStep config leftover id = some next) ∨ _
  unfold cpuStep
  cases hcpu : os.cpus id with
  | top proc timeLeft =>
      refine Or.inl ⟨.zero, ?_⟩
      simp only
      unfold cpuTop
      cases proc with
      | none =>
          simp only
          split <;> exact ⟨_, rfl⟩
      | some proc =>
          have hheld : (os.cpus id).proc = some proc := by rw [hcpu]; rfl
          simp only [pcb_of_held howned hheld, ok_bind]
          split
          · exact ⟨_, rfl⟩
          · split <;> exact ⟨_, rfl⟩
  | putReady proc timeLeft =>
      have hheld : (os.cpus id).proc = some proc := by rw [hcpu]; rfl
      obtain ⟨sched, hput⟩ := Sched.exists_enqueueReady (howned.prio_lt hprio hheld) os.sched
      refine Or.inl ⟨.zero, ?_⟩
      simp only [cpuPutReady, pcb_of_held howned hheld, ok_bind, Sched.putMlqProc, hput]
      exact ⟨_, rfl⟩
  | afterPut timeLeft => exact Or.inl ⟨.zero, _, rfl⟩
  | afterFree => exact Or.inl ⟨.zero, _, rfl⟩
  | recheck proc timeLeft =>
      simp only
      unfold cpuRecheck
      cases proc with
      | none =>
          refine Or.inl ⟨.zero, ?_⟩
          simp only
          split <;> exact ⟨_, rfl⟩
      | some proc =>
          have hheld : (os.cpus id).proc = some proc := by rw [hcpu]; rfl
          have hpcb : (os.dispatch proc timeLeft).pcb proc = .ok (os.pcbs proc) :=
            pcb_of_held howned hheld
          cases hins : (os.pcbs proc).code[(os.pcbs proc).pc]? with
          | none =>
              refine Or.inl ⟨.zero, ?_⟩
              simp only [Os.run, hpcb, ok_bind, hins]
              exact ⟨_, rfl⟩
          | some ins =>
              by_cases hdefined : ∃ (leftover : Leftover) (result : Int × Krnl Nat),
                ins.execute ((os.advance proc).readPid leftover) leftover.junk os.krnl
                  (os.pcbs proc).pid = .ok result
              · obtain ⟨leftover, ⟨status, krnl⟩, hexecute⟩ := hdefined
                refine Or.inl ⟨leftover, ?_⟩
                have hsame : ins.execute
                    (((os.dispatch proc timeLeft).advance proc).readPid leftover) leftover.junk
                    ((os.dispatch proc timeLeft).advance proc).krnl (os.pcbs proc).pid =
                      .ok (status, krnl) := hexecute
                simp only [Os.run, hpcb, ok_bind, hins, hsame]
                exact ⟨_, rfl⟩
              · refine Or.inr ⟨proc, timeLeft, ins, hcpu, hins, fun leftover => ?_⟩
                cases hexecute : ins.execute ((os.advance proc).readPid leftover) leftover.junk
                    os.krnl (os.pcbs proc).pid with
                | ok result => exact absurd ⟨leftover, result, hexecute⟩ hdefined
                | error fault => exact ⟨fault, rfl⟩
  | stopped => exact absurd hcpu hrunning

/-- The loader can always go on until it has stopped. -/
theorem Owned.exists_loader_step
    (hprio : ∀ proc < config.numProcesses, config.prio proc < maxPrio) (howned : os.Owned)
    (hrunning : os.loader.location ≠ .stopped) (garbage : ListEnd) :
    ∃ next, os.step config (.loader garbage) = some next := by
  change ∃ next, os.loaderStep config garbage = some next
  unfold loaderStep
  cases hlocation : os.loader.location with
  | load =>
      simp only [hlocation]
      split <;> exact ⟨_, rfl⟩
  | addRunning =>
      simp only [hlocation]
      exact ⟨_, rfl⟩
  | addReady =>
      obtain ⟨sched, hadd⟩ :=
        Sched.exists_enqueueReady (hprio _ (howned.i_lt (Or.inr hlocation))) os.sched
      simp only [hlocation, Sched.addMlqProc, hadd]
      exact ⟨_, rfl⟩
  | stopped => exact absurd hlocation hrunning

end Os

/-! ## No deadlock -/

namespace TimedOs

variable {config : TimedConfig} {state next : TimedOs config.numCpus}

/-- All threads have left their loops and are detached, and `stop_timer` has joined the timer. -/
structure Over (state : TimedOs config.numCpus) : Prop where
  exited : ∀ device, state.exited device = true
  detached : ∀ device, (state.timerId device).fsh = true
  stopped : state.timer.location = .stopped
  joined : state.timer.timerStop = true

/-- Some thread or the timer can take a step. -/
def CanStep (state : TimedOs config.numCpus) : Prop :=
  ∃ event next, state.step config event = some next

/-- The threads fit to the timer, and the timer keeps its books. -/
structure Steady (state : TimedOs config.numCpus) : Prop where
  coupled : state.Coupled
  tallied : state.timer.Tallied

theorem steady_start (mm : MmStruct) (mram activeMswp : MemphyStruct) :
    (start mm mram activeMswp : TimedOs config.numCpus).Steady where
  coupled := coupled_start mm mram activeMswp
  tallied := Timer.tallied_start

theorem Steady.move (hsteady : state.Steady) (hmove : state.Move next) : next.Steady where
  coupled := hsteady.coupled.move hmove
  tallied := by
    cases hmove with
    | cpu => exact hsteady.tallied
    | loader => exact hsteady.tallied
    | adds => exact hsteady.tallied
    | hold => exact hsteady.tallied
    | enter => exact hsteady.tallied.setDevice fun hfsh => hfsh
    | leave => exact hsteady.tallied.setDevice fun hfsh => hfsh
    | detach => exact hsteady.tallied.setDevice fun _ => rfl
    | timer hadvance => exact hsteady.tallied.advance hadvance
    | stop hdetached =>
        exact { tally := hsteady.tallied.tally, stopping := fun _ id _ => hdetached id }

/-- A thread that the timer waits for can take a step, where a thread in its slot can. -/
theorem canStep_of_attached {faulty : Prop}
    (hcpu : ∀ id, state.Free (.cpu id) → state.os.cpus id ≠ .stopped →
      (∃ leftover os, state.os.step config.toConfig (.cpu leftover id) = some os) ∨ faulty)
    (hloader : state.os.loader.location ≠ .stopped →
      ∃ garbage os, state.os.step config.toConfig (.loader garbage) = some os)
    {device : Device config.numCpus} (hdone : (state.timerId device).done = false)
    (hattached : (state.timerId device).fsh = false) : state.CanStep ∨ faulty := by
  cases hphase : (state.timerId device).phase with
  | waiting =>
      refine Or.inl ⟨.leave device, ?_⟩
      simp only [step, timerStep, Timer.step]
      rw [if_pos ⟨hphase, hdone⟩]
      exact ⟨_, rfl⟩
  | working =>
      cases hcalling : state.calling device with
      | true =>
          refine Or.inl ⟨.enter device, ?_⟩
          simp only [step, timerStep, Timer.step, hcalling, if_true]
          have hworks : ((state.setCalling device false).timer.devices device.position).phase =
              .working := hphase
          rw [if_pos hworks]
          exact ⟨_, rfl⟩
      | false =>
          have hfree : state.Free device := ⟨hphase, hcalling⟩
          by_cases hexited : state.exited device = true
          · refine Or.inl ⟨.detach device, ?_⟩
            simp only [step]
            rw [if_pos ⟨hexited, hattached⟩]
            exact ⟨_, rfl⟩
          · cases device with
            | cpu id =>
                rw [exited_cpu_iff] at hexited
                refine (hcpu id hfree hexited).imp_left ?_
                rintro ⟨leftover, os, hos⟩
                refine ⟨.cpu leftover id, ?_⟩
                simp only [step, cpuStep, if_pos hfree, hos]
                exact ⟨_, rfl⟩
            | loader =>
                rw [exited_loader_iff] at hexited
                refine Or.inl ?_
                cases hearly : state.early config with
                | true =>
                    refine ⟨.hold, ?_⟩
                    simp only [step, if_pos (And.intro hfree hearly)]
                    exact ⟨_, rfl⟩
                | false =>
                    obtain ⟨garbage, os, hos⟩ := hloader hexited
                    refine ⟨.loader garbage, ?_⟩
                    simp only [step, loaderStep, if_pos (And.intro hfree hearly), hos]
                    exact ⟨_, rfl⟩

/-- Where every thread in its slot can take a step, the simulator can, until it has ended. -/
theorem Steady.canStep {faulty : Prop} (hsteady : state.Steady)
    (hcpu : ∀ id, state.Free (.cpu id) → state.os.cpus id ≠ .stopped →
      (∃ leftover os, state.os.step config.toConfig (.cpu leftover id) = some os) ∨ faulty)
    (hloader : state.os.loader.location ≠ .stopped →
      ∃ garbage os, state.os.step config.toConfig (.loader garbage) = some os) :
    state.CanStep ∨ state.Over ∨ faulty := by
  cases hadvance : state.timer.advance with
  | some timer =>
      refine Or.inl ⟨.timer, ?_⟩
      simp only [step, timerStep, Timer.step, hadvance]
      exact ⟨_, rfl⟩
  | none =>
      rcases Timer.stopped_or_waits hadvance with hstopped | ⟨position, hdone, hattached⟩
      · have htally := hsteady.tallied.tally
        rw [hstopped] at htally
        have hdetached : ∀ id, (state.timer.devices id).fsh = true :=
          fun id => htally id id.isLt
        cases hjoined : state.timer.timerStop with
        | true =>
            exact Or.inr (Or.inl
              { exited := fun device => hsteady.coupled.attached device (hdetached _)
                detached := fun device => hdetached _
                stopped := hstopped
                joined := hjoined })
        | false =>
            refine Or.inl ⟨.stop, ?_⟩
            simp only [step]
            rw [if_pos ⟨hdetached, hjoined⟩]
            exact ⟨_, rfl⟩
      · obtain ⟨device, rfl⟩ := Device.position_surjective position
        exact (canStep_of_attached hcpu hloader hdone hattached).imp_right Or.inr

theorem steady_of_visited (mm : MmStruct) (mram activeMswp : MemphyStruct)
    (events : List (TimedEvent config.numCpus)) :
    ∀ state ∈ Runs.visited (step config) (start mm mram activeMswp) events, state.Steady :=
  Runs.visited_invariant Steady (fun _ => True)
    (fun _ _ _ _ hsteady hstep => hsteady.move (move_of_step hstep)) (fun _ _ => trivial)
    (steady_start mm mram activeMswp)

/-- The simulator has no deadlock: in every state that any schedule reaches, some step is
possible, or the simulator has ended, or a CPU is at an instruction with no defined result. -/
theorem visited_canStep (config : TimedConfig)
    (hprio : ∀ proc < config.numProcesses, config.prio proc < maxPrio) (mm : MmStruct)
    (mram activeMswp : MemphyStruct) (events : List (TimedEvent config.numCpus)) :
    ∀ state ∈ Runs.visited (step config) (start mm mram activeMswp) events,
      state.CanStep ∨ state.Over ∨ ∃ id, state.Free (.cpu id) ∧ state.os.Faults id := by
  intro state hstate
  have hsteady := steady_of_visited mm mram activeMswp events state hstate
  have howned := hsteady.coupled.owned
  refine hsteady.canStep (fun id hfree hrunning => ?_)
    fun hrunning => ⟨.null, howned.exists_loader_step hprio hrunning .null⟩
  exact (howned.cpu_step_or_faults hprio hrunning).imp_right fun hfaults => ⟨id, hfree, hfaults⟩

/-- The timer has released both threads for the last time and ended. -/
theorem visited_canStep_one_job :
    ∃ state, Runs.run (step oneJob)
        (start (initMm .null) singleProcess.mram singleProcess.activeMswp)
        (oneJobEvents ++ [.timer, .timer, .timer, .stop]) = some state ∧
      (state.timer.location, state.timer.timerStop) = (.stopped, true) ∧
      (state.CanStep ∨ state.Over ∨ ∃ id, state.Free (.cpu id) ∧ state.os.Faults id) := by
  have hfinal : (Runs.run (step oneJob)
      (start (initMm .null) singleProcess.mram singleProcess.activeMswp)
        (oneJobEvents ++ [.timer, .timer, .timer, .stop])).map
          (fun state => (state.timer.location, state.timer.timerStop)) = some (.stopped, true) := by
    decide +kernel
  have hprio : ∀ proc < oneJob.numProcesses, oneJob.prio proc < maxPrio := by decide
  obtain ⟨state, hrun, hlocation⟩ := Option.map_eq_some_iff.mp hfinal
  exact ⟨state, hrun, hlocation, visited_canStep oneJob hprio _ _ _ _ state
    (Runs.mem_visited_iff.mpr ⟨_, List.prefix_rfl, hrun⟩)⟩

end TimedOs

end SimpleOs
