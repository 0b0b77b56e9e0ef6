import SimpleOs.System.Quantum

/-! # Exactly-once execution

Every move keeps every process in a life, so in every reachable state the marks of a
process are those of one life, and the ownership invariant says where the process is.
-/

namespace SimpleOs

namespace Os

variable {config : Config} {os next : Os config.numCpus}

/-- The two conditions under which a step of a CPU leaves the other processes alone. -/
theorem ownLog_mark_of_ne {proc other : Nat} (hne : some proc ≠ some other) (mark : Mark) :
    (os.mark proc mark).ownLog other = os.ownLog other := by
  rw [ownLog_append, if_neg fun heq => hne (congrArg some heq)]

theorem ownLog_dispatch_of_ne {proc other : Nat} (hne : some proc ≠ some other)
    (timeLeft : Int) : (os.dispatch proc timeLeft).ownLog other = os.ownLog other := by
  rw [ownLog_dispatch, if_neg fun h => hne (congrArg some h.1)]

theorem freed_cons_of_ne {proc other : Nat} (hne : some proc ≠ some other) :
    other ∈ proc :: os.freed ↔ other ∈ os.freed := by
  rw [List.mem_cons, or_iff_right fun heq => hne (congrArg some heq.symm)]

theorem pcbs_advance_of_ne {proc other : Nat} (hne : some proc ≠ some other) :
    (os.advance proc).pcbs other = os.pcbs other :=
  Function.update_of_ne (fun heq => hne (congrArg some heq.symm)) _ _

theorem code_advance (proc other : Nat) :
    ((os.advance proc).pcbs other).code = (os.pcbs other).code := by
  change (Function.update os.pcbs proc _ other).code = _
  by_cases hsame : other = proc
  · subst hsame
    rw [Function.update_self]
  · rw [Function.update_of_ne hsame]

/-- A CPU that holds a process holds that one only. -/
theorem eq_of_holding {id : Fin config.numCpus} {cpu : Cpu} {proc : Nat}
    (hcpu : os.cpus id = cpu) (hproc : cpu.proc = some proc) :
    ∀ other, (os.cpus id).proc = some other → some proc = some other := by
  intro other hother
  rw [hcpu, hproc] at hother
  exact hother

theorem Tracked.move {event : OsEvent config.numCpus} (hslot : 0 < config.timeSlot)
    (htracked : os.Tracked) (hmove : Move os event next) : next.Tracked := by
  have howned := htracked.owned.move hmove
  -- a step of a CPU is about the process it holds before or after the step
  cases hmove with
  | load hloader hi => exact htracked.load hloader hi
  | loaded hloader =>
      exact htracked.loader_step howned (congrArg Loader.loaded hloader).symm rfl rfl rfl rfl
  | addRunning hloader =>
      exact htracked.loader_step howned (congrArg Loader.loaded hloader).symm rfl rfl rfl rfl
  | addReady hloader =>
      exact htracked.loader_step howned (congrArg Loader.loaded hloader).symm rfl rfl rfl rfl
  | idle => exact htracked
  | @get leftover id timeLeft level usedSlot proc rest hcpu hready =>
      have hmem : proc ∈ os.sched.ready level := hready ▸ List.mem_cons_self
      refine htracked.cpu_step (some proc) howned rfl rfl trivial ?_ (fun _ h => h)
        (fun _ => rfl) ?_ (fun _ _ => ⟨rfl, rfl, Iff.rfl⟩)
      · intro other hother
        rw [proc_of_fetching hcpu] at hother
        cases hother
      · rintro other ⟨⟩
        exact ⟨(htracked.owned.added_of_ready hmem).trans_le os.i_le_loaded,
          htracked.lives_get hcpu hready⟩
  | @getNone leftover id timeLeft hcpu =>
      refine htracked.cpu_step none howned rfl rfl
        ((htracked.rested id).of_fetching hcpu) ?_ (fun _ h => h) (fun _ => rfl) ?_
        (fun _ _ => ⟨rfl, rfl, Iff.rfl⟩)
      · intro other hother
        rw [proc_of_fetching hcpu] at hother
        cases hother
      · rintro other ⟨⟩
  | @finish leftover id proc timeLeft hcpu halive hend =>
      have hholds := eq_of_holding hcpu rfl
      refine htracked.cpu_step (some proc) howned rfl rfl trivial hholds
        (fun _ h => by cases h) (fun _ => rfl) ?_
        (fun other hother => ⟨ownLog_mark_of_ne hother _, rfl, freed_cons_of_ne hother⟩)
      rintro other ⟨⟩
      exact ⟨htracked.loaded_of_held (by rw [hcpu]; rfl), htracked.lives_finish hcpu hend⟩
  | @put leftover id proc hcpu halive hpc =>
      refine htracked.cpu_step (some proc) howned rfl rfl rfl (eq_of_holding hcpu rfl)
        (fun _ h => h) (fun _ => rfl) ?_
        (fun other hother => ⟨ownLog_mark_of_ne hother _, rfl, Iff.rfl⟩)
      rintro other ⟨⟩
      exact ⟨htracked.loaded_of_held (by rw [hcpu]; rfl), htracked.lives_put hcpu hpc⟩
  | @pass leftover id proc timeLeft hcpu halive hpc htime =>
      refine htracked.cpu_step (some proc) howned rfl rfl trivial
        (eq_of_holding hcpu rfl) (fun _ h => h) (fun _ => rfl) ?_
        (fun _ _ => ⟨rfl, rfl, Iff.rfl⟩)
      rintro other ⟨⟩
      exact ⟨htracked.loaded_of_held (by rw [hcpu]; rfl), htracked.lives_pass hcpu hpc htime⟩
  | @putReady leftover id proc timeLeft sched hcpu hput =>
      have hrested : timeLeft = 0 := by
        have hcpuRested := htracked.rested id
        rw [hcpu] at hcpuRested
        exact hcpuRested
      refine htracked.cpu_step (some proc) howned rfl rfl hrested
        (eq_of_holding hcpu rfl) (fun _ h => by cases h) (fun _ => rfl) ?_
        (fun _ _ => ⟨rfl, rfl, Iff.rfl⟩)
      rintro other ⟨⟩
      exact ⟨htracked.loaded_of_held (by rw [hcpu]; rfl), htracked.lives_putReady hcpu⟩
  | @stop leftover id timeLeft hcpu =>
      refine htracked.cpu_step none howned rfl rfl trivial ?_ (fun _ h => h)
        (fun _ => rfl) ?_ (fun _ _ => ⟨rfl, rfl, Iff.rfl⟩)
      · intro other hother
        rw [hcpu] at hother
        cases hother
      · rintro other ⟨⟩
  | @again leftover id timeLeft hcpu =>
      have hrested : timeLeft = 0 := by
        have hcpuRested := htracked.rested id
        rw [hcpu] at hcpuRested
        exact hcpuRested
      refine htracked.cpu_step none howned rfl rfl hrested ?_ (fun _ h => h)
        (fun _ => rfl) ?_ (fun _ _ => ⟨rfl, rfl, Iff.rfl⟩)
      · intro other hother
        rw [hcpu] at hother
        cases hother
      · rintro other ⟨⟩
  | @runPastEnd leftover id proc timeLeft hcpu halive hend =>
      refine htracked.cpu_step (some proc) howned rfl rfl trivial
        (eq_of_holding hcpu rfl) (fun _ h => h) (fun _ => rfl) ?_
        (fun other hother => ⟨ownLog_dispatch_of_ne hother _, rfl, Iff.rfl⟩)
      rintro other ⟨⟩
      exact ⟨htracked.loaded_of_held (by rw [hcpu]; rfl),
        htracked.lives_runPastEnd hslot hcpu hend⟩
  | @run leftover id proc timeLeft ins status krnl hcpu halive hins hexecute =>
      refine htracked.cpu_step (some proc) howned rfl rfl trivial
        (eq_of_holding hcpu rfl) (fun _ h => h) (fun other => code_advance proc other) ?_
        (fun other hother => ⟨?_, pcbs_advance_of_ne hother, Iff.rfl⟩)
      · rintro other ⟨⟩
        exact ⟨htracked.loaded_of_held (by rw [hcpu]; rfl), htracked.lives_run hslot hcpu hins⟩
      · exact (ownLog_mark_of_ne hother _).trans (ownLog_dispatch_of_ne hother _)

theorem tracked_start (mm : MmStruct) (mram activeMswp : MemphyStruct) :
    (start mm mram activeMswp : Os config.numCpus).Tracked where
  owned := owned_start mm mram activeMswp
  rested _ := rfl
  code proc hproc := absurd hproc (Nat.not_lt_zero proc)
  lives proc hproc := absurd hproc (Nat.not_lt_zero proc)
  unmarked _ _ := rfl

/-! ## Reachable states -/

/-- The process is held by one CPU. -/
def HeldOnce (os : Os config.numCpus) (proc : Nat) : Prop :=
  ∃ id, ∀ other, (os.cpus other).proc = some proc ↔ other = id

/-- The process waits once, in the ready queue of its priority. -/
def WaitsOnce (os : Os config.numCpus) (proc : Nat) : Prop :=
  ∃ level : Fin maxPrio, config.prio proc = level ∧ (os.sched.ready level).count proc = 1 ∧
    ∀ other, other ≠ level → proc ∉ os.sched.ready other

/-- The process is in no ready queue. -/
def NotReady (os : Os config.numCpus) (proc : Nat) : Prop :=
  ∀ level, proc ∉ os.sched.ready level

/-- Exactly-once execution with a time quantum. -/
structure ExactlyOnce (os : Os config.numCpus) : Prop where
  /-- a process that was added and not freed is in one place -/
  placed : ∀ proc < os.loader.i, proc ∉ os.freed →
    (os.HeldOnce proc ∧ os.NotReady proc) ∨ (proc ∉ os.held ∧ os.WaitsOnce proc)
  /-- a process that was not added yet is nowhere -/
  pending : ∀ proc, os.loader.i ≤ proc → proc ∉ os.held ∧ os.NotReady proc
  /-- the instructions executed are those before `pc`, each once and in order -/
  executed : ∀ proc < os.loaded, executed (os.ownLog proc) = List.range (os.pcbs proc).pc
  /-- a process is freed only at the end of its code, and then it is nowhere -/
  released : ∀ proc ∈ os.freed, (os.pcbs proc).pc = (config.text proc).length ∧
    proc ∉ os.held ∧ os.NotReady proc
  /-- from a dispatch to the next put or finish it executes the quantum or what is left -/
  quantum : ∀ proc before middle last after,
    os.ownLog proc = before ++ Mark.dispatch :: (middle ++ last :: after) →
      last = .put ∨ last = .finish → Mark.put ∉ middle → Mark.finish ∉ middle →
        ((SimpleOs.executed middle).length : Int) =
          min config.timeSlot ((config.text proc).length - (SimpleOs.executed before).length)

/-- With no more processes than a queue has slots, no insertion is refused. -/
theorem Owned.placed_of_le (howned : os.Owned) (hcount : config.numProcesses ≤ maxQueueSize) :
    Ledger.Placed config.prio none (os.ledger []) := by
  obtain ⟨refused, hplaced⟩ := howned.placed
  have hnil : refused = [] := by
    apply List.eq_nil_iff_forall_not_mem.mpr
    intro proc hproc
    have hcrowded := hplaced.crowded proc hproc
    have hlength := List.length_filter_le
      (fun other => decide (config.prio other = config.prio proc)) (List.range os.loader.i)
    rw [List.length_range] at hlength
    have hi := howned.i_le
    have hle : maxQueueSize < os.loader.i := hcrowded.trans_le hlength
    omega
  rw [← hnil]
  exact hplaced

theorem Owned.heldOnce (howned : os.Owned) {proc : Nat} (hheld : proc ∈ os.held) :
    os.HeldOnce proc := by
  obtain ⟨id, hid⟩ := mem_held.mp hheld
  refine ⟨id, fun other => ⟨fun hother => howned.holder_unique hother hid, ?_⟩⟩
  rintro rfl
  exact hid

theorem Tracked.exactlyOnce (htracked : os.Tracked)
    (hcount : config.numProcesses ≤ maxQueueSize) : os.ExactlyOnce where
  placed proc hadded halive := by
    have hplaced := htracked.owned.placed_of_le hcount
    rcases (hplaced.added_iff proc).mp (List.mem_range.mpr hadded) with
      ⟨level, hready⟩ | hheld | hrefused | htransit
    · exact Or.inr ⟨(htracked.owned.not_held_of_ready hready).1, hplaced.waits hready⟩
    · rcases List.mem_append.mp hheld with hheld | hfreed
      · exact Or.inl ⟨htracked.owned.heldOnce hheld,
          fun level hready => (htracked.owned.not_held_of_ready hready).1 hheld⟩
      · exact absurd hfreed halive
    · cases hrefused
    · cases htransit
  pending proc hpending :=
    ⟨fun hheld => absurd (htracked.owned.added_of_held (Or.inl hheld)) (Nat.not_lt.mpr hpending),
      fun level hready =>
        absurd (htracked.owned.added_of_ready hready) (Nat.not_lt.mpr hpending)⟩
  executed proc hloaded := by
    obtain ⟨life, hlife, hmatches⟩ := htracked.lives proc hloaded
    rw [Life.executed_eq_range hlife]
    cases hmatches <;> rfl
  released proc hfreed := by
    have hloaded := (htracked.owned.added_of_held (Or.inr hfreed)).trans_le os.i_le_loaded
    refine ⟨?_, fun hheld => htracked.owned.alive_of_held hheld hfreed,
      fun level hready => (htracked.owned.not_held_of_ready hready).2 hfreed⟩
    obtain ⟨life, hlife, hmatches⟩ := htracked.lives proc hloaded
    cases hmatches with
    | waiting halive => exact absurd hfreed halive
    | running halive => exact absurd hfreed halive
    | finished hfreed hpc => exact hpc
  quantum proc before middle last after hlog hlast hput hfinish := by
    by_cases hloaded : proc < os.loaded
    · obtain ⟨life, hlife, hmatches⟩ := htracked.lives proc hloaded
      rw [hlog] at hlife
      exact Life.executed_in_turn hlife hlast hput hfinish
    · rw [htracked.unmarked proc (Nat.le_of_not_lt hloaded)] at hlog
      cases before <;> cases hlog

/-- Exactly-once execution holds in every state of every run, for any order of the steps of
any number of CPUs and the loader. -/
theorem visited_exactlyOnce (config : Config) (hslot : 1 ≤ config.timeSlot)
    (hcount : config.numProcesses ≤ maxQueueSize) (mm : MmStruct) (mram activeMswp : MemphyStruct)
    (events : List (OsEvent config.numCpus)) :
    ∀ os ∈ Runs.visited (step config) (start mm mram activeMswp) events, os.ExactlyOnce := by
  intro os hos
  have htracked := Runs.visited_invariant Tracked (fun _ => True)
    (fun _ _ _ _ htracked hstep => htracked.move hslot (move_of_step hstep)) (fun _ _ => trivial)
    (tracked_start mm mram activeMswp) os hos
  exact htracked.exactlyOnce hcount

/-- Two processes on two CPUs with a quantum of two instructions. -/
def twoCpus : Config where
  timeSlot := 2
  numCpus := 2
  numProcesses := 2
  prio proc := proc
  text proc :=
    List.replicate (3 - proc) { opcode := .calc, arg0 := 0, arg1 := 0, arg2 := 0, arg3 := 0 }
  numProcesses_lt := two_processes_lt
  size_lt proc := by
    rw [List.length_replicate]
    omega

/-- A schedule in which the first process is preempted and taken over by the other CPU. -/
def twoCpusEvents : List (OsEvent twoCpus.numCpus) :=
  let first : Fin twoCpus.numCpus := ⟨0, by decide⟩
  let second : Fin twoCpus.numCpus := ⟨1, by decide⟩
  [.loader .null, .loader .null, .loader .null, .cpu .zero first, .cpu .zero first,
    .cpu .zero first, .cpu .zero first, .cpu .zero first, .cpu .zero first, .cpu .zero second,
    .cpu .zero first, .cpu .zero second, .loader .null, .cpu .zero second, .loader .null,
    .loader .null, .cpu .zero second]

/-- The other CPU finishes the first process, whose three instructions ran once each. -/
theorem visited_exactlyOnce_two_cpus :
    ∃ os, Runs.run (step twoCpus)
        (start (initMm .null) singleProcess.mram singleProcess.activeMswp) twoCpusEvents = some os ∧
      os.ownLog 0 =
        [.dispatch, .execute 0, .execute 1, .put, .dispatch, .execute 2, .finish] ∧
      os.freed = [0] ∧ os.ExactlyOnce := by
  have hfinal : (Runs.run (step twoCpus)
      (start (initMm .null) singleProcess.mram singleProcess.activeMswp) twoCpusEvents).map
        (fun os => (os.ownLog 0, os.freed)) =
      some ([.dispatch, .execute 0, .execute 1, .put, .dispatch, .execute 2, .finish], [0]) := by
    decide +kernel
  obtain ⟨os, hrun, hfields⟩ := Option.map_eq_some_iff.mp hfinal
  obtain ⟨hlog, hfreed⟩ := Prod.mk.inj hfields
  exact ⟨os, hrun, hlog, hfreed, visited_exactlyOnce twoCpus (by decide) (by decide) _ _ _ _ os
    (Runs.mem_visited_iff.mpr ⟨_, List.prefix_rfl, hrun⟩)⟩

end Os

end SimpleOs
