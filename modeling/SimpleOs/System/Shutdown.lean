import SimpleOs.System.Ownership

/-! # The end of the work

When the loader has finished and no process is left, a CPU that gets to the second check
of its iteration stops there. A CPU that is idle at the top of its loop never gets to it.
-/

namespace SimpleOs

namespace Os

variable {config : Config}

/-- The loader has set `done`, nothing waits, and no CPU holds an unfinished process. -/
structure WorkOver (os : Os config.numCpus) : Prop where
  done : os.done = true
  ready_empty : ∀ level, os.sched.ready level = []
  finished : ∀ id proc, (os.cpus id).proc = some proc →
    (os.pcbs proc).pc = (os.pcbs proc).code.length

/-- The step begins an iteration of the loop of the CPU. -/
def Begins (id : Fin config.numCpus) (move : Os config.numCpus × OsEvent config.numCpus) : Bool :=
  match move.2 with
  | .loader _ => false
  | .cpu _ other =>
      match move.1.cpus other with
      | .top _ _ => decide (other = id)
      | _ => false

/-- How many iterations a CPU begins in the completed steps of a schedule. -/
def begun (id : Fin config.numCpus) (os : Os config.numCpus)
    (events : List (OsEvent config.numCpus)) : Nat :=
  (Runs.taken (step config) os events).countP (Begins id)

/-- How many steps of a schedule are steps of the CPU. -/
def turns (id : Fin config.numCpus) (events : List (OsEvent config.numCpus)) : Nat :=
  events.countP fun event =>
    match event with
    | .loader _ => false
    | .cpu _ other => decide (other = id)

/-- The CPU leaves its loop in the next iteration that it begins, whatever the others do: it
begins no second one, it has stopped after four steps, and it can take them all. -/
structure LeavesNext (os : Os config.numCpus) (id : Fin config.numCpus) : Prop where
  once : ∀ events, os.begun id events ≤ 1
  leaves : ∀ events final, Runs.run (step config) os events = some final →
    final.cpus id = .stopped ∨ (turns id events < 4 ∧
      ∀ leftover, ∃ next, final.step config (.cpu leftover id) = some next)

/-- What every run keeps: `done` is set when the loader stops, and a process is put back only
when it has instructions left. -/
structure Closing (os : Os config.numCpus) : Prop where
  owned : os.Owned
  done_stopped : os.done = true → os.loader.location = .stopped
  put_unfinished : ∀ id proc timeLeft, os.cpus id = .putReady proc timeLeft →
    (os.pcbs proc).pc ≠ (os.pcbs proc).code.length

variable {os next : Os config.numCpus} {id : Fin config.numCpus}

/-! ## The invariant -/

theorem closing_start (mm : MmStruct) (mram activeMswp : MemphyStruct) :
    (start mm mram activeMswp : Os config.numCpus).Closing where
  owned := owned_start mm mram activeMswp
  done_stopped := nofun
  put_unfinished := nofun

/-- A step of a CPU that is not about to put a process back leaves the others' processes
as they are. -/
theorem Closing.cpu_step {cpu : Cpu} (hclosing : os.Closing) (howned : next.Owned)
    (hdone : next.done = os.done) (hloader : next.loader = os.loader)
    (hcpus : next.cpus = Function.update os.cpus id cpu)
    (hcpu : ∀ proc timeLeft, cpu = .putReady proc timeLeft →
      (next.pcbs proc).pc ≠ (next.pcbs proc).code.length)
    (hpcbs : ∀ proc, (os.cpus id).proc ≠ some proc → next.pcbs proc = os.pcbs proc) :
    next.Closing where
  owned := howned
  done_stopped hset := by
    rw [hloader]
    exact hclosing.done_stopped (hdone ▸ hset)
  put_unfinished other proc timeLeft hput := by
    rw [hcpus] at hput
    by_cases hother : other = id
    · subst hother
      rw [Function.update_self] at hput
      exact hcpu proc timeLeft hput
    · rw [Function.update_of_ne hother] at hput
      -- two CPUs never hold one process
      rw [hpcbs proc fun hheld => hother (hclosing.owned.holder_unique (by rw [hput]; rfl) hheld)]
      exact hclosing.put_unfinished other proc timeLeft hput

/-- As long as the loader has not stopped, `done` is not set. -/
theorem Closing.done_stopped_of_loading (hclosing : os.Closing) {location : LoaderLocation}
    {i : Nat} (hloader : os.loader = { location := location, i := i })
    (hrunning : location ≠ .stopped) {loader : Loader} (hset : os.done = true) :
    loader.location = .stopped := by
  have hstopped := hclosing.done_stopped hset
  rw [hloader] at hstopped
  exact absurd hstopped hrunning

theorem Closing.move {event : OsEvent config.numCpus} (hclosing : os.Closing)
    (hmove : Move os event next) : next.Closing := by
  have howned := hclosing.owned.move hmove
  cases hmove with
  | load hloader hi =>
      refine
        { owned := howned, done_stopped := hclosing.done_stopped_of_loading hloader nofun
          put_unfinished := ?_ }
      · rename_i garbage i
        intro id proc timeLeft hput
        have hcpu : os.cpus id = .putReady proc timeLeft := hput
        have hheld : proc ∈ os.held := mem_held.mpr ⟨id, by rw [hcpu]; rfl⟩
        have hlt := hclosing.owned.added_of_held (Or.inl hheld)
        rw [hloader] at hlt
        change (Function.update os.pcbs i _ proc).pc ≠
          (Function.update os.pcbs i _ proc).code.length
        rw [Function.update_of_ne (Nat.ne_of_lt hlt)]
        exact hclosing.put_unfinished id proc timeLeft hput
  | loaded hloader =>
      exact
        { owned := howned, done_stopped := fun _ => rfl
          put_unfinished := hclosing.put_unfinished }
  | addRunning hloader =>
      exact
        { owned := howned, done_stopped := hclosing.done_stopped_of_loading hloader nofun
          put_unfinished := hclosing.put_unfinished }
  | addReady hloader hadd =>
      exact
        { owned := howned, done_stopped := hclosing.done_stopped_of_loading hloader nofun
          put_unfinished := hclosing.put_unfinished }
  | idle hcpu => exact hclosing
  | get hcpu hready => exact hclosing.cpu_step howned rfl rfl rfl nofun fun _ _ => rfl
  | getNone hcpu => exact hclosing.cpu_step howned rfl rfl rfl nofun fun _ _ => rfl
  | finish hcpu halive hend => exact hclosing.cpu_step howned rfl rfl rfl nofun fun _ _ => rfl
  | put hcpu halive hpc =>
      refine hclosing.cpu_step howned rfl rfl rfl ?_ fun _ _ => rfl
      rintro _ _ ⟨⟩
      exact hpc
  | pass hcpu halive hpc htime =>
      exact hclosing.cpu_step howned rfl rfl rfl nofun fun _ _ => rfl
  | putReady hcpu hput => exact hclosing.cpu_step howned rfl rfl rfl nofun fun _ _ => rfl
  | stop hcpu => exact hclosing.cpu_step howned rfl rfl rfl nofun fun _ _ => rfl
  | again hcpu => exact hclosing.cpu_step howned rfl rfl rfl nofun fun _ _ => rfl
  | runPastEnd hcpu halive hend =>
      exact hclosing.cpu_step howned rfl rfl rfl nofun fun _ _ => rfl
  | run hcpu halive hins hexecute =>
      refine hclosing.cpu_step howned rfl rfl rfl nofun fun other hother => ?_
      rw [hcpu] at hother
      exact Function.update_of_ne (fun heq => hother (congrArg some heq.symm)) _ _

/-! ## Steps after the work -/

/-- The next position of a CPU once the work is over: a finished process is freed, nothing is
found in its place, and the second check ends the loop. -/
def windDown (timeSlot : Int) : Cpu → Cpu
  | .top none timeLeft => .top none timeLeft
  | .top (some _) _ => .afterFree
  | .putReady proc timeLeft => .putReady proc timeLeft
  | .afterPut timeLeft => .recheck none timeLeft
  | .afterFree => .recheck none 0
  | .recheck none _ => .stopped
  | .recheck (some proc) timeLeft =>
      .top (some proc) ((if timeLeft = 0 then timeSlot else timeLeft) - 1)
  | .stopped => .stopped

/-- The steps that a CPU on its way out has left. -/
def stepsLeft : Cpu → Nat
  | .top _ _ => 3
  | .putReady _ _ => 1
  | .afterPut _ => 2
  | .afterFree => 2
  | .recheck none _ => 1
  | .recheck (some _) _ => 4
  | .stopped => 0

/-- The iterations that it still begins. -/
def beginsLeft : Cpu → Nat
  | .top _ _ => 1
  | .recheck (some _) _ => 1
  | _ => 0

theorem getProc_of_empty (hempty : ∀ level, os.sched.ready level = []) :
    os.sched.getProc = (none, os.sched) := by
  rcases Sched.getProc_cases os.sched with ⟨hget, -⟩ | ⟨level, usedSlot, proc, rest, hready, -⟩
  · exact hget
  · rw [hempty level] at hready
    cases hready

theorem pcb_of_held (howned : os.Owned) {proc : Nat} (hheld : (os.cpus id).proc = some proc) :
    os.pcb proc = .ok (os.pcbs proc) := by
  unfold Os.pcb
  rw [if_neg (howned.alive_of_held (mem_held.mpr ⟨id, hheld⟩))]

/-- The work stays over when a CPU moves on and holds no other process than before. -/
theorem WorkOver.setCpu {base : Os config.numCpus} {cpu : Cpu} (hover : os.WorkOver)
    (hdone : base.done = os.done) (hready : base.sched.ready = os.sched.ready)
    (hcpus : base.cpus = os.cpus) (hpcbs : base.pcbs = os.pcbs)
    (hcpu : cpu.proc = none ∨ cpu.proc = (os.cpus id).proc) : (base.setCpu id cpu).WorkOver where
  done := hdone.trans hover.done
  ready_empty level := by
    change base.sched.ready level = []
    rw [hready]
    exact hover.ready_empty level
  finished other proc hheld := by
    change (Function.update base.cpus id cpu other).proc = some proc at hheld
    change (base.pcbs proc).pc = (base.pcbs proc).code.length
    rw [hcpus] at hheld
    rw [hpcbs]
    by_cases hother : other = id
    · subst hother
      rw [Function.update_self] at hheld
      rcases hcpu with hnone | hsame
      · rw [hnone] at hheld
        cases hheld
      · exact hover.finished other proc (hsame ▸ hheld)
    · rw [Function.update_of_ne hother] at hheld
      exact hover.finished other proc hheld

/-- After the work, a CPU that has not stopped can take its step, and only one. -/
theorem WorkOver.step (hclosing : os.Closing) (hover : os.WorkOver)
    (hrunning : os.cpus id ≠ .stopped) (leftover : Leftover) :
    ∃ next, os.step config (.cpu leftover id) = some next ∧ next.WorkOver ∧
      next.cpus = Function.update os.cpus id (windDown config.timeSlot (os.cpus id)) := by
  have hget := getProc_of_empty hover.ready_empty
  change ∃ next, os.cpuStep config leftover id = some next ∧ _
  unfold cpuStep
  cases hcpu : os.cpus id with
  | top proc timeLeft =>
      simp only
      unfold cpuTop
      cases proc with
      | none =>
          simp only [hget]
          refine ⟨os, rfl, hover, ?_⟩
          change os.cpus = Function.update os.cpus id (.top none timeLeft)
          rw [← hcpu, Function.update_eq_self]
      | some proc =>
          have hheld : (os.cpus id).proc = some proc := by rw [hcpu]; rfl
          simp only [pcb_of_held hclosing.owned hheld, ok_bind,
            if_pos (hover.finished id proc hheld)]
          exact ⟨_, rfl, hover.setCpu rfl rfl rfl rfl (Or.inl rfl), rfl⟩
  | putReady proc timeLeft =>
      exact absurd (hover.finished id proc (by rw [hcpu]; rfl))
        (hclosing.put_unfinished id proc timeLeft hcpu)
  | afterPut timeLeft =>
      simp only [cpuGet, hget]
      exact ⟨_, rfl, hover.setCpu rfl rfl rfl rfl (Or.inl rfl), rfl⟩
  | afterFree =>
      simp only [cpuGet, hget]
      exact ⟨_, rfl, hover.setCpu rfl rfl rfl rfl (Or.inl rfl), rfl⟩
  | recheck proc timeLeft =>
      simp only
      unfold cpuRecheck
      cases proc with
      | none =>
          simp only [hover.done, if_true]
          exact ⟨_, rfl, hover.setCpu rfl rfl rfl rfl (Or.inl rfl), rfl⟩
      | some proc =>
          have hheld : (os.cpus id).proc = some proc := by rw [hcpu]; rfl
          have hpcb : (os.dispatch proc timeLeft).pcb proc = .ok (os.pcbs proc) :=
            pcb_of_held hclosing.owned hheld
          have hnone : (os.pcbs proc).code[(os.pcbs proc).pc]? = none :=
            List.getElem?_eq_none_iff.mpr (Nat.le_of_eq (hover.finished id proc hheld).symm)
          simp only [Os.run, hpcb, ok_bind, hnone]
          refine ⟨_, rfl, hover.setCpu rfl rfl rfl rfl (Or.inr ?_), rfl⟩
          rw [hheld]
          rfl
  | stopped => exact absurd hcpu hrunning

/-- After the work, only the CPUs move, each in its own way. -/
theorem WorkOver.step_cases {event : OsEvent config.numCpus} (hclosing : os.Closing)
    (hover : os.WorkOver) (hstep : os.step config event = some next) :
    next.Closing ∧ next.WorkOver ∧ ∃ leftover other, event = .cpu leftover other ∧
      os.cpus other ≠ .stopped ∧
      next.cpus = Function.update os.cpus other (windDown config.timeSlot (os.cpus other)) := by
  refine ⟨hclosing.move (move_of_step hstep), ?_⟩
  cases event with
  | loader garbage =>
      change os.loaderStep config garbage = some next at hstep
      unfold loaderStep at hstep
      simp only [hclosing.done_stopped hover.done] at hstep
      cases hstep
  | cpu leftover other =>
      have hrunning : os.cpus other ≠ .stopped := by
        intro hstopped
        change os.cpuStep config leftover other = some next at hstep
        unfold cpuStep at hstep
        rw [hstopped] at hstep
        cases hstep
      obtain ⟨after, hafter, hafterOver, hcpus⟩ := hover.step hclosing hrunning leftover
      obtain rfl := Option.some.inj (hafter.symm.trans hstep)
      exact ⟨hafterOver, leftover, other, rfl, hrunning, hcpus⟩

/-! ## Leaving the loop -/

/-- The CPU is idle at the top of its loop. -/
def Idle (cpu : Cpu) : Prop := ∃ timeLeft, cpu = .top none timeLeft

theorem not_idle_windDown {timeSlot : Int} {cpu : Cpu} (hidle : ¬ Idle cpu) :
    ¬ Idle (windDown timeSlot cpu) := by
  rintro ⟨timeLeft, hwind⟩
  unfold windDown at hwind
  split at hwind
  all_goals first
    | exact hidle ⟨_, rfl⟩
    | cases hwind

theorem stepsLeft_windDown (timeSlot : Int) {cpu : Cpu} (hidle : ¬ Idle cpu)
    (hput : ∀ proc timeLeft, cpu ≠ .putReady proc timeLeft) (hrunning : cpu ≠ .stopped) :
    stepsLeft (windDown timeSlot cpu) + 1 = stepsLeft cpu := by
  cases cpu with
  | top proc timeLeft =>
      cases proc with
      | none => exact absurd ⟨timeLeft, rfl⟩ hidle
      | some proc => rfl
  | putReady proc timeLeft => exact absurd rfl (hput proc timeLeft)
  | afterPut timeLeft => rfl
  | afterFree => rfl
  | recheck proc timeLeft => cases proc <;> rfl
  | stopped => exact absurd rfl hrunning

theorem begun_cons {event : OsEvent config.numCpus} {rest : List (OsEvent config.numCpus)}
    (hstep : os.step config event = some next) :
    os.begun id (event :: rest) =
      next.begun id rest + if Begins id (os, event) = true then 1 else 0 := by
  unfold begun
  simp only [Runs.taken, hstep, List.countP_cons]

/-- Beginning an iteration uses up what was left to begin. -/
theorem beginsLeft_windDown (timeSlot : Int) (leftover : Leftover)
    (hidle : ¬ Idle (os.cpus id)) :
    beginsLeft (windDown timeSlot (os.cpus id)) +
        (if Begins id (os, .cpu leftover id) = true then 1 else 0) ≤ beginsLeft (os.cpus id) := by
  unfold Begins
  simp only
  cases hcpu : os.cpus id with
  | top proc timeLeft =>
      cases proc with
      | none => exact absurd ⟨timeLeft, hcpu⟩ hidle
      | some proc => simp [windDown, beginsLeft]
  | putReady proc timeLeft => simp [windDown, beginsLeft]
  | afterPut timeLeft => simp [windDown, beginsLeft]
  | afterFree => simp [windDown, beginsLeft]
  | recheck proc timeLeft => cases proc <;> simp [windDown, beginsLeft]
  | stopped => simp [windDown, beginsLeft]

theorem begins_of_ne {leftover : Leftover} {other : Fin config.numCpus} (hother : other ≠ id) :
    Begins id (os, .cpu leftover other) = false := by
  unfold Begins
  simp only
  split
  · exact decide_eq_false hother
  · rfl

/-- A CPU on its way out begins an iteration only where one is left to begin. -/
theorem WorkOver.begun_le (hclosing : os.Closing) (hover : os.WorkOver)
    (hidle : ¬ Idle (os.cpus id)) (events : List (OsEvent config.numCpus)) :
    os.begun id events ≤ beginsLeft (os.cpus id) := by
  induction events generalizing os with
  | nil => exact Nat.zero_le _
  | cons event rest ih =>
      cases hnext : os.step config event with
      | none =>
          unfold begun
          simp only [Runs.taken, hnext, List.countP_nil]
          exact Nat.zero_le _
      | some next =>
          obtain ⟨hnextClosing, hnextOver, leftover, other, rfl, -, hcpus⟩ :=
            hover.step_cases hclosing hnext
          rw [begun_cons hnext]
          by_cases hother : other = id
          · subst hother
            have hcpu : next.cpus other = windDown config.timeSlot (os.cpus other) := by
              rw [hcpus, Function.update_self]
            have hrest := ih hnextClosing hnextOver (hcpu ▸ not_idle_windDown hidle)
            rw [hcpu] at hrest
            exact (Nat.add_le_add_right hrest _).trans
              (beginsLeft_windDown config.timeSlot leftover hidle)
          · have hcpu : next.cpus id = os.cpus id := by
              rw [hcpus, Function.update_of_ne (Ne.symm hother)]
            have hrest := ih hnextClosing hnextOver (hcpu ▸ hidle)
            rw [hcpu] at hrest
            rw [begins_of_ne hother]
            exact hrest

/-- A CPU on its way out uses up its steps one by one. -/
theorem WorkOver.stepsLeft_eq {final : Os config.numCpus} (hclosing : os.Closing)
    (hover : os.WorkOver) (hidle : ¬ Idle (os.cpus id)) {events : List (OsEvent config.numCpus)}
    (hrun : Runs.run (Os.step config) os events = some final) :
    final.Closing ∧ final.WorkOver ∧
      stepsLeft (final.cpus id) + turns id events = stepsLeft (os.cpus id) := by
  induction events generalizing os with
  | nil =>
      cases hrun
      exact ⟨hclosing, hover, rfl⟩
  | cons event rest ih =>
      rw [Runs.run_cons] at hrun
      obtain ⟨next, hnext, hrest⟩ := Option.bind_eq_some_iff.mp hrun
      obtain ⟨hnextClosing, hnextOver, leftover, other, rfl, hrunning, hcpus⟩ :=
        hover.step_cases hclosing hnext
      by_cases hother : other = id
      · subst hother
        have hcpu : next.cpus other = windDown config.timeSlot (os.cpus other) := by
          rw [hcpus, Function.update_self]
        obtain ⟨hfinalClosing, hfinalOver, hsteps⟩ :=
          ih hnextClosing hnextOver (hcpu ▸ not_idle_windDown hidle) hrest
        refine ⟨hfinalClosing, hfinalOver, ?_⟩
        have hput : ∀ proc timeLeft, os.cpus other ≠ .putReady proc timeLeft :=
          fun proc timeLeft hput => hclosing.put_unfinished other proc timeLeft hput
            (hover.finished other proc (by rw [hput]; rfl))
        have hdown := stepsLeft_windDown config.timeSlot hidle hput hrunning
        rw [hcpu] at hsteps
        unfold turns at hsteps ⊢
        simp only [List.countP_cons, decide_true, if_true]
        omega
      · have hcpu : next.cpus id = os.cpus id := by
          rw [hcpus, Function.update_of_ne (Ne.symm hother)]
        obtain ⟨hfinalClosing, hfinalOver, hsteps⟩ :=
          ih hnextClosing hnextOver (hcpu ▸ hidle) hrest
        refine ⟨hfinalClosing, hfinalOver, ?_⟩
        rw [hcpu] at hsteps
        unfold turns at hsteps ⊢
        simpa [List.countP_cons, hother] using hsteps

theorem stepsLeft_pos {cpu : Cpu} (hrunning : cpu ≠ .stopped) :
    0 < stepsLeft cpu ∧ stepsLeft cpu ≤ 4 := by
  unfold stepsLeft
  split <;> first | omega | exact absurd rfl hrunning

/-- A CPU that is idle at the top of its loop begins one iteration after the other. -/
theorem WorkOver.not_leavesNext (hover : os.WorkOver) (hidle : Idle (os.cpus id)) :
    ¬ os.LeavesNext id := by
  obtain ⟨timeLeft, hcpu⟩ := hidle
  have hsame : os.step config (.cpu .zero id) = some os := by
    change os.cpuStep config .zero id = some os
    unfold cpuStep cpuTop
    simp only [hcpu, getProc_of_empty hover.ready_empty]
    rfl
  have hbegins : Begins id (os, .cpu .zero id) = true := by
    unfold Begins
    simp only [hcpu, decide_true]
  intro hleaves
  have htwice := hleaves.once [.cpu .zero id, .cpu .zero id]
  rw [begun_cons hsame, begun_cons hsame, if_pos hbegins] at htwice
  omega

/-- Once the work is over, a CPU that has not stopped leaves its loop in its next iteration
exactly when it is not idle at the top of the loop. -/
theorem leavesNext_iff_not_idle (config : Config) (mm : MmStruct)
    (mram activeMswp : MemphyStruct) (events : List (OsEvent config.numCpus))
    (os : Os config.numCpus)
    (hvisited : os ∈ Runs.visited (Os.step config) (start mm mram activeMswp) events)
    (hover : os.WorkOver) (id : Fin config.numCpus) (hrunning : os.cpus id ≠ .stopped) :
    os.LeavesNext id ↔ ¬ Idle (os.cpus id) := by
  have hclosing := Runs.visited_invariant Closing (fun _ => True)
    (fun _ _ _ _ hclosing hstep => hclosing.move (move_of_step hstep)) (fun _ _ => trivial)
    (closing_start mm mram activeMswp) os hvisited
  constructor
  · exact fun hleaves hidle => hover.not_leavesNext hidle hleaves
  · intro hidle
    refine { once := fun events => ?_, leaves := fun events final hrun => ?_ }
    · refine (hover.begun_le hclosing hidle events).trans ?_
      unfold beginsLeft
      split <;> omega
    · by_cases hstopped : final.cpus id = .stopped
      · exact Or.inl hstopped
      · obtain ⟨hfinalClosing, hfinalOver, hsteps⟩ := hover.stepsLeft_eq hclosing hidle hrun
        have hleft := (stepsLeft_pos hstopped).1
        have hmost := (stepsLeft_pos hrunning).2
        refine Or.inr ⟨by omega, fun leftover => ?_⟩
        obtain ⟨next, hnext, -, -⟩ := hfinalOver.step hfinalClosing hstopped leftover
        exact ⟨next, hnext⟩

/-- One CPU and no process. -/
def noProcess : Config where
  timeSlot := 2
  numCpus := 1
  numProcesses := 0
  prio _ := 0
  text _ := []
  numProcesses_lt := no_processes_lt
  size_lt _ := by decide

/-- The loader of `noProcess` has nothing to load and stops. -/
def noProcessDone : Os noProcess.numCpus :=
  { (start (initMm .null) singleProcess.mram singleProcess.activeMswp : Os noProcess.numCpus) with
    loader := { location := .stopped, i := 0 }, done := true }

theorem workOver_noProcess :
    noProcessDone ∈ Runs.visited (Os.step noProcess)
        (start (initMm .null) singleProcess.mram singleProcess.activeMswp) [.loader .null] ∧
      noProcessDone.WorkOver := by
  refine ⟨List.mem_cons_of_mem _ (List.mem_singleton_self _), ?_⟩
  exact { done := rfl, ready_empty := fun _ => rfl, finished := nofun }

theorem leavesNext_iff_not_idle_noProcess :
    noProcessDone.LeavesNext ⟨0, Nat.one_pos⟩ ↔ ¬ Idle (noProcessDone.cpus ⟨0, Nat.one_pos⟩) :=
  leavesNext_iff_not_idle noProcess (initMm .null) singleProcess.mram singleProcess.activeMswp
    [.loader .null] noProcessDone workOver_noProcess.1 workOver_noProcess.2 ⟨0, Nat.one_pos⟩ nofun

/-- Without a process the CPU was idle when the loader finished, and it stays in its loop. -/
theorem not_leavesNext_noProcess :
    ∃ os : Os noProcess.numCpus,
      os ∈ Runs.visited (Os.step noProcess)
        (start (initMm .null) singleProcess.mram singleProcess.activeMswp) [.loader .null] ∧
      os.WorkOver ∧ ∃ id, os.cpus id ≠ .stopped ∧ ¬ os.LeavesNext id :=
  ⟨noProcessDone, workOver_noProcess.1, workOver_noProcess.2, ⟨0, Nat.one_pos⟩, nofun,
    workOver_noProcess.2.not_leavesNext ⟨0, rfl⟩⟩

end Os

end SimpleOs
