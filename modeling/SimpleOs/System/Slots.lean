import SimpleOs.System.Clock

/-! # The threads in their slots

The threads and the timer fit together: a thread that is not at work in its slot stands at
the head of its loop, and only a thread that has ended is detached.
-/

namespace SimpleOs

/-! ## What a step can do -/

namespace Timer

variable {numDevices : Nat} {timer next : Timer numDevices}

/-- `timer_routine` changes nothing of a device but `done`. -/
theorem devices_advance (hadvance : timer.advance = some next) (id : Fin numDevices) :
    next.devices id = { timer.devices id with done := (next.devices id).done } := by
  unfold advance at hadvance
  split at hadvance
  next => cases hadvance; rfl
  next =>
    split at hadvance
    next =>
      simp only at hadvance
      split at hadvance
      next => cases hadvance; rfl
      next => cases hadvance
    next => cases hadvance; rfl
  next => cases hadvance; rfl
  next position fsh event hlocation =>
    split at hadvance
    next hposition =>
      cases hadvance
      simp only [setDevice]
      by_cases hid : id = ⟨position, hposition⟩
      · subst hid
        rw [Function.update_self]
      · rw [Function.update_of_ne hid]
    next => cases hadvance; rfl
  next => cases hadvance

/-- `timer_routine` only reads `timer_stop`. -/
theorem timerStop_advance (hadvance : timer.advance = some next) :
    next.timerStop = timer.timerStop := by
  obtain ⟨location, time, ticks, timerStop, devices⟩ := timer
  cases location with
  | loop => cases hadvance; rfl
  | scan position fsh event =>
      simp only [advance] at hadvance
      split at hadvance
      next =>
        split at hadvance
        next => cases hadvance; rfl
        next => cases hadvance
      next => cases hadvance; rfl
  | tick fsh event => cases hadvance; rfl
  | release position fsh event =>
      simp only [advance] at hadvance
      split at hadvance
      next => cases hadvance; rfl
      next => cases hadvance; rfl
  | stopped => cases hadvance

/-- The time advances in one step of `timer_routine`, when it has passed all devices. -/
theorem ticks_advance (hadvance : timer.advance = some next) :
    next.ticks = timer.ticks ∨
      (∃ fsh event, timer.location = .tick fsh event) ∧ next.ticks = timer.ticks + 1 := by
  unfold advance at hadvance
  split at hadvance
  next => cases hadvance; exact Or.inl rfl
  next =>
    split at hadvance
    next =>
      simp only at hadvance
      split at hadvance
      next => cases hadvance; exact Or.inl rfl
      next => cases hadvance
    next => cases hadvance; exact Or.inl rfl
  next fsh event hlocation =>
    cases hadvance
    exact Or.inr ⟨⟨fsh, event, hlocation⟩, rfl⟩
  next =>
    split at hadvance
    next => cases hadvance; exact Or.inl rfl
    next => cases hadvance; exact Or.inl rfl
  next => cases hadvance

end Timer

namespace Os

variable {config : Config} {os next : Os config.numCpus}

@[simp] theorem cpus_setCpu_self (os : Os config.numCpus) (id : Fin config.numCpus) (cpu : Cpu) :
    (os.setCpu id cpu).cpus id = cpu := Function.update_self ..

theorem cpus_setCpu {base : Os config.numCpus} (hcpus : base.cpus = os.cpus)
    (id : Fin config.numCpus) (cpu : Cpu) :
    (base.setCpu id cpu).cpus = Function.update os.cpus id ((base.setCpu id cpu).cpus id) := by
  simp only [setCpu, hcpus, Function.update_self]

/-- A step of a CPU leaves the loader and the other CPUs alone. -/
theorem Move.cpu_frame {leftover : Leftover} {id : Fin config.numCpus}
    (hmove : Move os (.cpu leftover id) next) :
    next.loader = os.loader ∧ next.done = os.done ∧
      next.cpus = Function.update os.cpus id (next.cpus id) := by
  cases hmove with
  | idle hcpu => exact ⟨rfl, rfl, (Function.update_eq_self id os.cpus).symm⟩
  | _ => exact ⟨rfl, rfl, cpus_setCpu rfl id _⟩

/-- A step of the loader leaves the CPUs alone, and what they have done. -/
theorem Move.loader_frame {garbage : ListEnd} (hmove : Move os (.loader garbage) next) :
    next.cpus = os.cpus ∧ next.freed = os.freed ∧
      ∀ proc ≠ os.loader.i, next.pcbs proc = os.pcbs proc := by
  cases hmove with
  | load hloader hi =>
      refine ⟨rfl, rfl, fun proc hproc => ?_⟩
      rw [hloader] at hproc
      exact Function.update_of_ne hproc _ _
  | loaded hloader => exact ⟨rfl, rfl, fun _ _ => rfl⟩
  | addRunning hloader => exact ⟨rfl, rfl, fun _ _ => rfl⟩
  | addReady hloader hadd => exact ⟨rfl, rfl, fun _ _ => rfl⟩

end Os

namespace TimedOs

variable {config : TimedConfig}

def setTimerId {numCpus : Nat} (state : TimedOs numCpus) (device : Device numCpus)
    (timerId : TimerId) : TimedOs numCpus :=
  { state with timer := state.timer.setDevice device.position timerId }

@[simp] theorem timerId_setTimerId {numCpus : Nat} (state : TimedOs numCpus)
    (device : Device numCpus) (timerId : TimerId) :
    (state.setTimerId device timerId).timerId device = timerId := Function.update_self ..

theorem timerId_setTimerId_of_ne {numCpus : Nat} (state : TimedOs numCpus)
    {device other : Device numCpus} (hother : other ≠ device) (timerId : TimerId) :
    (state.setTimerId device timerId).timerId other = state.timerId other :=
  Function.update_of_ne (fun heq => hother (Device.position_injective heq)) _ _

/-- The moves of the threads and of the timer. -/
inductive Move (state : TimedOs config.numCpus) : TimedOs config.numCpus → Prop where
  | cpu {leftover id os} (hfree : state.Free (.cpu id))
      (hstep : state.os.step config.toConfig (.cpu leftover id) = some os) :
      Move state (state.afterCpu id os)
  | loader {garbage os} (hfree : state.Free .loader) (htime : state.early config = false)
      (hadds : state.os.loader.location ≠ .addReady)
      (hstep : state.os.step config.toConfig (.loader garbage) = some os) :
      Move state ({ state with os := os }.setCalling .loader false)
  | adds {garbage os} (hfree : state.Free .loader)
      (hadds : state.os.loader.location = .addReady)
      (hstep : state.os.step config.toConfig (.loader garbage) = some os) :
      Move state ({ state with
        os := os, arrivals := state.arrivals ++ [state.timer.ticks] }.setCalling .loader true)
  | hold (hfree : state.Free .loader) (hearly : state.early config = true) :
      Move state (state.setCalling .loader true)
  | enter {device} (hcalling : state.calling device = true)
      (hworking : (state.timerId device).phase = .working) :
      Move state ((state.setCalling device false).setTimerId device
        { state.timerId device with done := true, phase := .waiting })
  | leave {device}
      (hreleased : (state.timerId device).phase = .waiting ∧ (state.timerId device).done = false) :
      Move state (state.setTimerId device
        { state.timerId device with
          phase := .working, completed := (state.timerId device).completed + 1 })
  | detach {device} (hexited : state.exited device = true)
      (hattached : (state.timerId device).fsh = false) :
      Move state (state.setTimerId device { state.timerId device with fsh := true })
  | timer {timer} (hadvance : state.timer.advance = some timer) :
      Move state { state with timer := timer }
  | stop (hdetached : ∀ id, (state.timer.devices id).fsh = true)
      (hrunning : state.timer.timerStop = false) :
      Move state { state with timer := { state.timer with timerStop := true } }

variable {state next : TimedOs config.numCpus}

theorem move_of_loaderStep {garbage : ListEnd}
    (hstep : state.loaderStep config garbage = some next) : state.Move next := by
  unfold loaderStep at hstep
  split at hstep
  next hfree =>
    obtain ⟨os, hos, rfl⟩ := Option.map_eq_some_iff.mp hstep
    by_cases hadds : state.os.loader.location = .addReady
    · simp only [hadds, decide_true, if_true]
      exact .adds hfree.1 hadds hos
    · simp only [hadds, decide_false, if_false]
      exact .loader hfree.1 hfree.2 hadds hos
  next => cases hstep

theorem move_of_step {event : TimedEvent config.numCpus}
    (hstep : state.step config event = some next) : state.Move next := by
  cases event with
  | loader garbage => exact move_of_loaderStep hstep
  | hold =>
      simp only [step] at hstep
      split at hstep
      next hfree =>
        cases hstep
        exact .hold hfree.1 hfree.2
      next => cases hstep
  | cpu leftover id =>
      simp only [step, cpuStep] at hstep
      split at hstep
      next hfree =>
        obtain ⟨os, hos, rfl⟩ := Option.map_eq_some_iff.mp hstep
        exact .cpu hfree hos
      next => cases hstep
  | enter device =>
      simp only [step] at hstep
      split at hstep
      next hcalling =>
        obtain ⟨timer, htimer, rfl⟩ := Option.map_eq_some_iff.mp hstep
        simp only [Timer.step] at htimer
        split at htimer
        next hworking =>
          cases htimer
          exact .enter hcalling hworking
        next => cases htimer
      next => cases hstep
  | leave device =>
      obtain ⟨timer, htimer, rfl⟩ := Option.map_eq_some_iff.mp hstep
      simp only [Timer.step] at htimer
      split at htimer
      next hreleased =>
        cases htimer
        exact .leave hreleased
      next => cases htimer
  | detach device =>
      simp only [step] at hstep
      split at hstep
      next hexited =>
        obtain ⟨timer, htimer, rfl⟩ := Option.map_eq_some_iff.mp hstep
        cases htimer
        exact .detach hexited.1 hexited.2
      next => cases hstep
  | timer =>
      obtain ⟨timer, htimer, rfl⟩ := Option.map_eq_some_iff.mp hstep
      exact .timer htimer
  | stop =>
      simp only [step] at hstep
      split at hstep
      next hall =>
        obtain ⟨timer, htimer, rfl⟩ := Option.map_eq_some_iff.mp hstep
        cases htimer
        exact .stop hall.1 hall.2
      next => cases hstep

/-- A move is a step of the simulator without its timer, or leaves that alone. -/
theorem Move.os_step (hmove : state.Move next) :
    next.os = state.os ∨ ∃ event, state.os.step config.toConfig event = some next.os := by
  cases hmove with
  | cpu hfree hstep => exact Or.inr ⟨_, hstep⟩
  | loader hfree htime hadds hstep => exact Or.inr ⟨_, hstep⟩
  | adds hfree hadds hstep => exact Or.inr ⟨_, hstep⟩
  | _ => exact Or.inl rfl

/-- The simulator under its timer refines the one without: every run is a run of that one, with
the steps of the timer left out. -/
theorem os_run_of_run {final : TimedOs config.numCpus} {events : List (TimedEvent config.numCpus)}
    (hrun : Runs.run (step config) state events = some final) :
    ∃ osEvents, Runs.run (Os.step config.toConfig) state.os osEvents = some final.os := by
  induction events generalizing state with
  | nil =>
      cases hrun
      exact ⟨[], rfl⟩
  | cons event rest ih =>
      rw [Runs.run_cons] at hrun
      obtain ⟨next, hnext, hrest⟩ := Option.bind_eq_some_iff.mp hrun
      obtain ⟨osEvents, hos⟩ := ih hrest
      rcases (move_of_step hnext).os_step with hsame | ⟨osEvent, hstep⟩
      · exact ⟨osEvents, hsame ▸ hos⟩
      · refine ⟨osEvent :: osEvents, ?_⟩
        rw [Runs.run_cons, hstep]
        exact hos

/-! ## The threads and the timer -/

/-- A thread that is not at work in its slot, or about to leave it, is at the head of its
loop. A device is detached only when its thread has ended. -/
structure Coupled (state : TimedOs config.numCpus) : Prop where
  sync : state.timer.Synchronous
  owned : state.os.Owned
  attached : ∀ device, (state.timerId device).fsh = true → state.exited device = true
  calling_working : ∀ device, state.calling device = true →
    (state.timerId device).phase = .working
  cpu_paused : ∀ id, ¬ state.Free (.cpu id) → (state.os.cpus id).atHead = true
  loader_paused : ¬ state.Free .loader → state.os.loader.location = .load

theorem not_free_iff {device : Device config.numCpus} :
    ¬ state.Free device ↔
      (state.timerId device).phase = .waiting ∨ state.calling device = true := by
  unfold Free
  cases (state.timerId device).phase <;> cases state.calling device <;> simp

theorem coupled_start (mm : MmStruct) (mram activeMswp : MemphyStruct) :
    (start mm mram activeMswp : TimedOs config.numCpus).Coupled where
  sync := Timer.synchronous_start
  owned := Os.owned_start mm mram activeMswp
  attached := nofun
  calling_working := nofun
  cpu_paused _ hpaused := absurd ⟨rfl, rfl⟩ hpaused
  loader_paused hpaused := absurd ⟨rfl, rfl⟩ hpaused

theorem exited_cpu_iff {id : Fin config.numCpus} :
    state.exited (.cpu id) = true ↔ state.os.cpus id = .stopped := decide_eq_true_iff

theorem exited_loader_iff :
    state.exited .loader = true ↔ state.os.loader.location = .stopped := decide_eq_true_iff

theorem exited_cpu_of_ne {id : Fin config.numCpus} (hrunning : state.os.cpus id ≠ .stopped) :
    state.exited (.cpu id) = false := Bool.eq_false_iff.mpr (exited_cpu_iff.not.mpr hrunning)

theorem exited_loader_of_ne (hrunning : state.os.loader.location ≠ .stopped) :
    state.exited .loader = false := Bool.eq_false_iff.mpr (exited_loader_iff.not.mpr hrunning)

theorem free_setCalling_of_ne {os : Os config.numCpus} {device other : Device config.numCpus}
    {calling : Bool} {turns : List (Turn config.numCpus)} {arrivals : List Nat}
    (hother : other ≠ device) :
    ({ state with os := os, turns := turns, arrivals := arrivals }.setCalling device
      calling).Free other ↔ state.Free other := by
  unfold Free
  change _ ∧ Function.update state.calling device calling other = false ↔ _
  rw [Function.update_of_ne hother]
  rfl

theorem free_setCalling_self {os : Os config.numCpus} {device : Device config.numCpus}
    {calling : Bool} {turns : List (Turn config.numCpus)} {arrivals : List Nat}
    (hfree : state.Free device) :
    ({ state with os := os, turns := turns, arrivals := arrivals }.setCalling device
      calling).Free device ↔ calling = false := by
  unfold Free
  change _ ∧ Function.update state.calling device calling device = false ↔ _
  rw [Function.update_self]
  exact and_iff_right hfree.1

/-- A step of a thread leaves the timer and the other threads alone. It is to be shown where
the thread stands when it is about to call `next_slot`. -/
theorem Coupled.os_step {os : Os config.numCpus} {device : Device config.numCpus}
    {calling : Bool} {turns : List (Turn config.numCpus)} {arrivals : List Nat}
    (hcoupled : state.Coupled) (hfree : state.Free device) (howned : os.Owned)
    (hrunning : state.exited device = false)
    (hcpus : ∀ id, device ≠ .cpu id → os.cpus id = state.os.cpus id)
    (hloader : device ≠ .loader → os.loader = state.os.loader)
    (hcpu : ∀ id, device = .cpu id → calling = true → (os.cpus id).atHead = true)
    (hload : device = .loader → calling = true → os.loader.location = .load) :
    ({ state with os := os, turns := turns, arrivals := arrivals }.setCalling device
      calling).Coupled where
  sync := hcoupled.sync
  owned := howned
  attached other hfsh := by
    have hexited := hcoupled.attached other hfsh
    have hother : device ≠ other := by
      rintro rfl
      rw [hrunning] at hexited
      cases hexited
    cases other with
    | cpu id =>
        rw [exited_cpu_iff] at hexited ⊢
        exact (hcpus id hother).trans hexited
    | loader =>
        rw [exited_loader_iff] at hexited ⊢
        exact (congrArg Loader.location (hloader hother)).trans hexited
  calling_working other hother := by
    by_cases hsame : other = device
    · subst hsame
      exact hfree.1
    · exact hcoupled.calling_working other ((Function.update_of_ne hsame _ _).symm.trans hother)
  cpu_paused id hpaused := by
    by_cases hsame : Device.cpu id = device
    · subst hsame
      rw [free_setCalling_self hfree, Bool.not_eq_false] at hpaused
      exact hcpu id rfl hpaused
    · rw [free_setCalling_of_ne hsame] at hpaused
      exact (congrArg Cpu.atHead (hcpus id (Ne.symm hsame))).trans (hcoupled.cpu_paused id hpaused)
  loader_paused hpaused := by
    by_cases hsame : Device.loader = device
    · subst hsame
      rw [free_setCalling_self hfree, Bool.not_eq_false] at hpaused
      exact hload rfl hpaused
    · rw [free_setCalling_of_ne hsame] at hpaused
      exact (congrArg Loader.location (hloader (Ne.symm hsame))).trans
        (hcoupled.loader_paused hpaused)

theorem cpus_of_cpu_step {os : Os config.numCpus} {leftover : Leftover} {id : Fin config.numCpus}
    (hstep : state.os.step config.toConfig (.cpu leftover id) = some os)
    {other : Fin config.numCpus} (hother : Device.cpu id ≠ .cpu other) :
    os.cpus other = state.os.cpus other := by
  rw [(Os.move_of_step hstep).cpu_frame.2.2]
  exact Function.update_of_ne (fun heq => hother (congrArg _ heq.symm)) _ _

/-- A thread that takes a step has not left its loop. -/
theorem running_of_cpu_step {os : Os config.numCpus} {leftover : Leftover}
    {id : Fin config.numCpus}
    (hstep : state.os.step config.toConfig (.cpu leftover id) = some os) :
    state.exited (.cpu id) = false := by
  refine exited_cpu_of_ne fun hstopped => ?_
  simp only [Os.step, Os.cpuStep, hstopped] at hstep
  cases hstep

theorem running_of_loader_step {os : Os config.numCpus} {garbage : ListEnd}
    (hstep : state.os.step config.toConfig (.loader garbage) = some os) :
    state.exited .loader = false := by
  refine exited_loader_of_ne fun hstopped => ?_
  simp only [Os.step, Os.loaderStep, hstopped] at hstep
  cases hstep

/-- A step of the timer or of `next_slot` leaves the threads alone. -/
theorem Coupled.device_step {timer : Timer (config.numCpus + 1)}
    {calling : Device config.numCpus → Bool} (hcoupled : state.Coupled)
    (hsync : timer.Synchronous)
    (hfsh : ∀ device : Device config.numCpus, (timer.devices device.position).fsh = true →
      state.exited device = true)
    (hcalling : ∀ device : Device config.numCpus, calling device = true →
      (timer.devices device.position).phase = .working)
    (hfree : ∀ device, state.Free device → (timer.devices device.position).phase = .working ∧
      calling device = false) :
    ({ state with timer := timer, calling := calling } : TimedOs config.numCpus).Coupled where
  sync := hsync
  owned := hcoupled.owned
  attached := hfsh
  calling_working := hcalling
  cpu_paused id hpaused := hcoupled.cpu_paused id fun hwas => hpaused (hfree _ hwas)
  loader_paused hpaused := hcoupled.loader_paused fun hwas => hpaused (hfree _ hwas)

/-- The same for a step of one device. -/
theorem Coupled.set_device {device : Device config.numCpus} {timerId : TimerId}
    {calling : Device config.numCpus → Bool} (hcoupled : state.Coupled)
    (hin : InStep state.timer.location state.timer.ticks device.position.val timerId)
    (hothers : ∀ other, other ≠ device → calling other = state.calling other)
    (hfsh : timerId.fsh = true → state.exited device = true)
    (hcalling : calling device = true → timerId.phase = .working)
    (hfree : state.Free device → timerId.phase = .working ∧ calling device = false) :
    ({ state.setTimerId device timerId with calling := calling } :
      TimedOs config.numCpus).Coupled := by
  have hself : (state.setTimerId device timerId).timerId device = timerId :=
    timerId_setTimerId state device timerId
  refine hcoupled.device_step (hcoupled.sync.setDevice hin) (fun other hother => ?_)
    (fun other hother => ?_) fun other hother => ?_
  · change ((state.setTimerId device timerId).timerId other).fsh = true at hother
    by_cases hsame : other = device
    · subst hsame
      rw [hself] at hother
      exact hfsh hother
    · rw [timerId_setTimerId_of_ne state hsame] at hother
      exact hcoupled.attached other hother
  · change ((state.setTimerId device timerId).timerId other).phase = .working
    by_cases hsame : other = device
    · subst hsame
      rw [hself]
      exact hcalling hother
    · rw [timerId_setTimerId_of_ne state hsame]
      exact hcoupled.calling_working other ((hothers other hsame).symm.trans hother)
  · change ((state.setTimerId device timerId).timerId other).phase = .working ∧ _
    by_cases hsame : other = device
    · subst hsame
      rw [hself]
      exact hfree hother
    · rw [timerId_setTimerId_of_ne state hsame, hothers other hsame]
      exact hother

theorem early_iff : state.early config = true ↔ state.os.loader.location = .load ∧
    state.os.loader.i < config.numProcesses ∧
      state.timer.time < config.startTime state.os.loader.i := decide_eq_true_iff

theorem Coupled.move (hcoupled : state.Coupled) (hmove : state.Move next) : next.Coupled := by
  cases hmove with
  | cpu hfree hstep =>
      have hmove := Os.move_of_step hstep
      refine hcoupled.os_step hfree (hcoupled.owned.move hmove) (running_of_cpu_step hstep)
        (fun other hother => cpus_of_cpu_step hstep hother) (fun _ => hmove.cpu_frame.1) ?_ nofun
      rintro other ⟨⟩ hhead
      exact hhead
  | loader hfree htime hadds hstep =>
      have hmove := Os.move_of_step hstep
      exact hcoupled.os_step hfree (hcoupled.owned.move hmove) (running_of_loader_step hstep)
        (fun other _ => congrFun hmove.loader_frame.1 other) (fun hother => absurd rfl hother)
        nofun nofun
  | adds hfree hadds hstep =>
      have hmove := Os.move_of_step hstep
      refine hcoupled.os_step hfree (hcoupled.owned.move hmove) (running_of_loader_step hstep)
        (fun other _ => congrFun hmove.loader_frame.1 other) (fun hother => absurd rfl hother)
        nofun fun _ _ => ?_
      cases hmove with
      | load hloader => rw [hloader] at hadds; cases hadds
      | loaded hloader => rw [hloader] at hadds; cases hadds
      | addRunning hloader => rw [hloader] at hadds; cases hadds
      | addReady hloader hadd => rfl
  | hold hfree hearly =>
      have hload := (early_iff.mp hearly).1
      refine hcoupled.os_step hfree hcoupled.owned ?_ (fun _ _ => rfl) (fun _ => rfl) nofun
        fun _ _ => hload
      exact exited_loader_of_ne (hload ▸ nofun)
  | @enter device hcalling hworking =>
      refine hcoupled.set_device ((hcoupled.sync.devices _).enter hworking)
        (fun other hother => Function.update_of_ne hother _ _) (hcoupled.attached device)
        (fun hstill => ?_) fun hfree => ?_
      · simp only [setCalling, Function.update_self, Bool.false_eq_true] at hstill
      · rw [hfree.2] at hcalling
        cases hcalling
  | @leave device hreleased =>
      refine hcoupled.set_device ((hcoupled.sync.devices _).leave hreleased) (fun _ _ => rfl)
        (hcoupled.attached device) (fun _ => rfl) fun hfree => ⟨rfl, hfree.2⟩
  | @detach device hexited hattached =>
      exact hcoupled.set_device (hcoupled.sync.devices _).detach (fun _ _ => rfl)
        (fun _ => hexited) (hcoupled.calling_working device) id
  | timer hadvance =>
      refine hcoupled.device_step (hcoupled.sync.advance hadvance) (fun device hfsh => ?_)
        (fun device hcalling => ?_) fun device hfree => ?_
      · rw [Timer.devices_advance hadvance] at hfsh
        exact hcoupled.attached device hfsh
      · rw [Timer.devices_advance hadvance]
        exact hcoupled.calling_working device hcalling
      · rw [Timer.devices_advance hadvance]
        exact hfree
  | stop =>
      exact hcoupled.device_step
        { time_eq := hcoupled.sync.time_eq, devices := hcoupled.sync.devices }
        hcoupled.attached hcoupled.calling_working fun _ hfree => hfree

/-! ## Slots -/

/-- The slot that a thread is in, or the one that it is about to enter once it has come to
`next_slot`. -/
def slotOf {numCpus : Nat} (state : TimedOs numCpus) (device : Device numCpus) : Nat :=
  (state.timerId device).completed + if state.Free device then 0 else 1

/-- No thread is further than the next slot. -/
theorem Coupled.slotOf_le (hcoupled : state.Coupled) (device : Device config.numCpus) :
    state.slotOf device ≤ state.timer.ticks + 1 := by
  have hle : (state.timerId device).completed ≤ state.timer.ticks :=
    Nat.le_of_add_right_le (hcoupled.sync.devices device.position).account
  unfold slotOf
  split <;> omega

theorem Coupled.slotOf_le_of_free (hcoupled : state.Coupled) {device : Device config.numCpus}
    (hfree : state.Free device) : state.slotOf device ≤ state.timer.ticks := by
  unfold slotOf
  rw [if_pos hfree]
  exact Nat.le_of_add_right_le (hcoupled.sync.devices device.position).account

theorem Coupled.attached_of_running (hcoupled : state.Coupled) {device : Device config.numCpus}
    (hrunning : state.exited device = false) : (state.timerId device).fsh = false := by
  apply Bool.eq_false_iff.mpr
  intro hfsh
  rw [hcoupled.attached device hfsh] at hrunning
  cases hrunning

/-- A running thread that is at work is in the current slot. -/
theorem Coupled.slotOf_of_free (hcoupled : state.Coupled) {device : Device config.numCpus}
    (hfree : state.Free device) (hrunning : state.exited device = false) :
    state.slotOf device = state.timer.ticks := by
  have hin := hcoupled.sync.devices device.position
  have hattached := hcoupled.attached_of_running hrunning
  have haccount := hin.attached_account hattached
  have howed := (hin.owed_le hattached).2 hfree.1
  change (state.timerId device).completed + _ = _ at haccount
  unfold slotOf
  rw [if_pos hfree]
  omega

/-- A running thread is in the current slot, or about to enter the next. -/
theorem Coupled.ticks_le_slotOf (hcoupled : state.Coupled) {device : Device config.numCpus}
    (hrunning : state.exited device = false) :
    state.timer.ticks ≤ state.slotOf device := by
  by_cases hfree : state.Free device
  · exact (hcoupled.slotOf_of_free hfree hrunning).ge
  · have hin := hcoupled.sync.devices device.position
    have hattached := hcoupled.attached_of_running hrunning
    have haccount := hin.attached_account hattached
    have howed := (hin.owed_le hattached).1
    change (state.timerId device).completed + _ = _ at haccount
    unfold slotOf
    rw [if_neg hfree]
    omega

/-- When the time is about to advance, every running thread is about to enter the next slot. -/
theorem Coupled.slotOf_of_tick (hcoupled : state.Coupled) {fsh event : Nat}
    (hlocation : state.timer.location = .tick fsh event) {device : Device config.numCpus}
    (hrunning : state.exited device = false) :
    state.slotOf device = state.timer.ticks + 1 := by
  obtain ⟨hblocked, hcompleted⟩ := hcoupled.sync.barrier.ticking fsh event hlocation
    device.position (hcoupled.attached_of_running hrunning)
  have hpaused : ¬ state.Free device := not_free_iff.mpr (Or.inl hblocked.1)
  change (state.timerId device).completed = _ at hcompleted
  unfold slotOf
  rw [if_neg hpaused, hcompleted]

/-- A thread that is not in the current slot stands at the head of its loop. -/
theorem Coupled.atHead_of_slotOf (hcoupled : state.Coupled) {id : Fin config.numCpus}
    (hrunning : state.os.cpus id ≠ .stopped)
    (hslot : state.slotOf (.cpu id) ≠ state.timer.ticks) :
    (state.os.cpus id).atHead = true := by
  exact hcoupled.cpu_paused id fun hfree =>
    hslot (hcoupled.slotOf_of_free hfree (exited_cpu_of_ne hrunning))

theorem slotOf_congr {device : Device config.numCpus}
    (hcompleted : (next.timerId device).completed = (state.timerId device).completed)
    (hfree : next.Free device ↔ state.Free device) :
    next.slotOf device = state.slotOf device := by
  unfold slotOf
  rw [hcompleted]
  simp only [hfree]

theorem slotOf_setCalling_of_ne {os : Os config.numCpus} {device other : Device config.numCpus}
    {calling : Bool} {turns : List (Turn config.numCpus)} {arrivals : List Nat}
    (hother : other ≠ device) :
    ({ state with os := os, turns := turns, arrivals := arrivals }.setCalling device
      calling).slotOf other = state.slotOf other :=
  slotOf_congr rfl (free_setCalling_of_ne hother)

/-- A thread enters the next slot by the call of `next_slot`. -/
theorem slotOf_setCalling_self {os : Os config.numCpus} {device : Device config.numCpus}
    {calling : Bool} {turns : List (Turn config.numCpus)} {arrivals : List Nat}
    (hfree : state.Free device) :
    ({ state with os := os, turns := turns, arrivals := arrivals }.setCalling device
      calling).slotOf device = state.slotOf device + if calling then 1 else 0 := by
  unfold slotOf
  simp only [free_setCalling_self hfree, if_pos hfree]
  change (state.timerId device).completed + _ = _
  cases calling <;> rfl

theorem slotOf_afterCpu_of_ne {id : Fin config.numCpus} {os : Os config.numCpus}
    {other : Device config.numCpus} (hother : other ≠ .cpu id) :
    (state.afterCpu id os).slotOf other = state.slotOf other := slotOf_setCalling_of_ne hother

theorem slotOf_afterCpu_self {id : Fin config.numCpus} {os : Os config.numCpus}
    (hfree : state.Free (.cpu id)) : (state.afterCpu id os).slotOf (.cpu id) =
      state.slotOf (.cpu id) + if (os.cpus id).atHead then 1 else 0 :=
  slotOf_setCalling_self hfree

/-- `next_slot` itself changes no slot. -/
theorem slotOf_set_device {device : Device config.numCpus} {timerId : TimerId}
    {calling : Device config.numCpus → Bool}
    (hothers : ∀ other, other ≠ device → calling other = state.calling other)
    (hself : (timerId.completed + if timerId.phase = .working ∧ calling device = false then 0
      else 1) = state.slotOf device) (other : Device config.numCpus) :
    ({ state.setTimerId device timerId with calling := calling } :
      TimedOs config.numCpus).slotOf other = state.slotOf other := by
  unfold slotOf Free
  change (((state.setTimerId device timerId).timerId other).completed +
    if ((state.setTimerId device timerId).timerId other).phase = .working ∧
      calling other = false then 0 else 1) = _
  by_cases hsame : other = device
  · subst hsame
    rw [timerId_setTimerId]
    exact hself
  · rw [timerId_setTimerId_of_ne state hsame, hothers other hsame]
    rfl

/-- What a step is for the threads. The steps of the timer and of `next_slot` leave them and
their slots alone, and the time advances when they are all about to enter the next. -/
inductive Act (state : TimedOs config.numCpus) : TimedOs config.numCpus → Prop where
  | cpu {leftover id os} (hfree : state.Free (.cpu id))
      (hstep : state.os.step config.toConfig (.cpu leftover id) = some os) :
      Act state (state.afterCpu id os)
  | loader {garbage os} (hfree : state.Free .loader) (htime : state.early config = false)
      (hadds : state.os.loader.location ≠ .addReady)
      (hstep : state.os.step config.toConfig (.loader garbage) = some os) :
      Act state ({ state with os := os }.setCalling .loader false)
  | adds {garbage os} (hfree : state.Free .loader)
      (hadds : state.os.loader.location = .addReady)
      (hstep : state.os.step config.toConfig (.loader garbage) = some os) :
      Act state ({ state with
        os := os, arrivals := state.arrivals ++ [state.timer.ticks] }.setCalling .loader true)
  | hold (hfree : state.Free .loader) (hearly : state.early config = true) :
      Act state (state.setCalling .loader true)
  | clock {after} (hos : after.os = state.os) (hturns : after.turns = state.turns)
      (harrivals : after.arrivals = state.arrivals)
      (hslots : ∀ device, after.slotOf device = state.slotOf device)
      (hticks : after.timer.ticks = state.timer.ticks ∨
        after.timer.ticks = state.timer.ticks + 1 ∧ ∀ device, state.exited device = false →
          state.slotOf device = state.timer.ticks + 1) : Act state after

theorem Coupled.act (hcoupled : state.Coupled) (hmove : state.Move next) : state.Act next := by
  cases hmove with
  | cpu hfree hstep => exact .cpu hfree hstep
  | loader hfree htime hadds hstep => exact .loader hfree htime hadds hstep
  | adds hfree hadds hstep => exact .adds hfree hadds hstep
  | hold hfree hearly => exact .hold hfree hearly
  | @enter device hcalling hworking =>
      refine .clock rfl rfl rfl (slotOf_set_device
        (fun other hother => Function.update_of_ne hother _ _) ?_) (Or.inl rfl)
      have hpaused : ¬ state.Free device := not_free_iff.mpr (Or.inr hcalling)
      unfold slotOf
      rw [if_neg hpaused, if_neg (fun hworks => nomatch hworks.1)]
  | @leave device hreleased =>
      refine .clock rfl rfl rfl (slotOf_set_device (fun _ _ => rfl) ?_) (Or.inl rfl)
      have hpaused : ¬ state.Free device := not_free_iff.mpr (Or.inl hreleased.1)
      have hcalling : state.calling device = false := by
        rw [← Bool.not_eq_true]
        intro hcalling
        have hworking := hcoupled.calling_working device hcalling
        rw [hreleased.1] at hworking
        cases hworking
      unfold slotOf
      rw [if_neg hpaused, if_pos ⟨rfl, hcalling⟩]
  | @detach device hexited hattached =>
      exact .clock rfl rfl rfl (slotOf_set_device (fun _ _ => rfl) rfl) (Or.inl rfl)
  | @timer timer hadvance =>
      refine .clock rfl rfl rfl (fun device => ?_) ?_
      · have hkept := Timer.devices_advance hadvance device.position
        have hphase : (timer.devices device.position).phase = (state.timerId device).phase := by
          rw [hkept]
          rfl
        have hcompleted : (timer.devices device.position).completed =
            (state.timerId device).completed := by
          rw [hkept]
          rfl
        exact slotOf_congr hcompleted (and_congr_left fun _ => iff_of_eq (congrArg (· = _) hphase))
      · rcases Timer.ticks_advance hadvance with hsame | ⟨⟨fsh, event, hlocation⟩, hlater⟩
        · exact Or.inl hsame
        · exact Or.inr ⟨hlater, fun device hrunning =>
            hcoupled.slotOf_of_tick hlocation hrunning⟩
  | stop => exact .clock rfl rfl rfl (fun _ => rfl) (Or.inl rfl)

end TimedOs

end SimpleOs
