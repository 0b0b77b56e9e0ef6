import SimpleOs.Sched.Sections
import SimpleOs.System.Slots

/-! # How long a process waits for a CPU

The threads of the simulator use the scheduler by its critical sections only, so what the
simulator dispatches is what the scheduling policy selects.
-/

namespace SimpleOs

/-- The CPU is about to call `get_proc`. -/
def Cpu.fetches : Cpu → Bool
  | .top none _ => true
  | .afterPut _ => true
  | .afterFree => true
  | _ => false

theorem Cpu.fetches_iff {cpu : Cpu} :
    cpu.fetches = true ↔ ∃ timeLeft, Os.Fetching cpu timeLeft := by
  constructor
  · intro hfetches
    cases cpu with
    | top proc timeLeft =>
        cases proc with
        | none => exact ⟨timeLeft, .idle timeLeft⟩
        | some proc => cases hfetches
    | afterPut timeLeft => exact ⟨timeLeft, .afterPut timeLeft⟩
    | afterFree => exact ⟨0, .afterFree⟩
    | _ => cases hfetches
  · rintro ⟨timeLeft, hcpu⟩
    cases hcpu <;> rfl

namespace Os

variable {config : Config} {os next : Os config.numCpus} {event : OsEvent config.numCpus}
  {leftover : Leftover} {id : Fin config.numCpus}

/-- The step is a call of `get_proc`. -/
def fetches (os : Os config.numCpus) : OsEvent config.numCpus → Bool
  | .loader _ => false
  | .cpu _ id => (os.cpus id).fetches

/-- What a CPU does with the process that `get_proc` returns. -/
theorem fetch_step {timeLeft : Int} (hcpu : Fetching (os.cpus id) timeLeft)
    (hstep : os.step config (.cpu leftover id) = some next) :
    (os.sched.getProc = (none, os.sched) ∧ next.sched = os.sched) ∨
      ∃ proc, os.sched.getProc = (some proc, next.sched) ∧ proc ∈ next.held := by
  have hheld : ∀ {base : Os config.numCpus} {proc : Nat} {left : Int},
      proc ∈ (base.setCpu id (.recheck (some proc) left)).held := fun {base proc left} =>
    mem_held.mpr ⟨id, by rw [cpus_setCpu_self]; rfl⟩
  change os.cpuStep config leftover id = some next at hstep
  unfold cpuStep at hstep
  generalize hat : os.cpus id = cpu at hcpu hstep
  rcases Sched.getProc_cases os.sched with ⟨hget, -⟩ | ⟨level, usedSlot, proc, rest, -, hget⟩
  · refine Or.inl ⟨hget, ?_⟩
    cases hcpu <;> simp only [cpuTop, cpuGet, hget] at hstep <;> cases hstep <;> rfl
  · refine Or.inr ⟨proc, ?_⟩
    rw [hget]
    cases hcpu <;> simp only [cpuTop, cpuGet, hget] at hstep <;> cases hstep <;>
      exact ⟨rfl, hheld⟩

/-- The step is a critical section of the scheduler, and what `get_proc` returns there is
held. -/
structure Uses (os next : Os config.numCpus) (event : OsEvent config.numCpus)
    (service after : Service Nat) (call : LockedCall Nat) : Prop where
  step_eq : service.step config.prio call = some after
  sched_eq : after.sched = next.sched
  selects_eq : call.selects = os.fetches event
  held : ∀ proc, after.served = service.served ++ [proc] → proc ∈ next.held

variable {service : Service Nat}

/-- A step that leaves the scheduler as it is. -/
theorem uses_of_sched_eq (hsched : service.sched = os.sched)
    (hsame : next.sched = { os.sched with runningList := next.sched.runningList })
    (hfetches : os.fetches event = false) :
    Uses os next event service
      { service with sched.runningList := next.sched.runningList }
      (.searchRunning next.sched.runningList) where
  step_eq := rfl
  sched_eq := by
    rw [hsame, hsched]
  selects_eq := hfetches.symm
  held proc hserved := by simp at hserved

/-- A step that inserts a process into a ready queue. -/
theorem exists_uses_of_ready {proc : Nat} {sched : Sched Nat} (hsched : service.sched = os.sched)
    (hput : Sched.enqueueReady config.prio os.sched proc = .ok sched)
    (hnext : next.sched = sched) (hfetches : os.fetches event = false) :
    ∃ call after, Uses os next event service after call := by
  refine ⟨.enqueueReady proc,
    { service with
      sched := sched
      taken :=
        if Ledger.full config.prio os.sched proc then service.taken
        else service.taken ++ [proc] },
    ?_, hnext.symm, hfetches.symm, fun other hserved => ?_⟩
  · simp only [Service.step, hsched, hput]
    rfl
  · simp at hserved

/-- Every step of the simulator is a critical section of the scheduler, or leaves all but the
running list of it as it is. -/
theorem exists_uses (hsched : service.sched = os.sched)
    (hstep : os.step config event = some next) :
    ∃ call after, Uses os next event service after call := by
  by_cases hfetches : os.fetches event = true
  · cases event with
    | loader garbage => cases hfetches
    | cpu leftover id =>
        obtain ⟨timeLeft, hcpu⟩ := Cpu.fetches_iff.mp hfetches
        refine ⟨.getProc, ?_⟩
        rcases fetch_step hcpu hstep with ⟨hget, hsame⟩ | ⟨proc, hget, hheld⟩
        · refine ⟨service, ?_, hsched.trans hsame.symm, hfetches.symm, fun proc hserved => ?_⟩
          · simp only [Service.step, hsched, hget]
            exact congrArg some (by rw [← hsched])
          · simp at hserved
        · refine ⟨{ service with sched := next.sched, served := service.served ++ [proc] }, ?_,
            rfl, hfetches.symm, fun other hserved => ?_⟩
          · simp only [Service.step, hsched, hget]
          · obtain rfl := List.singleton_injective (List.append_cancel_left hserved)
            exact hheld
  · have hnot : os.fetches event = false := Bool.eq_false_iff.mpr hfetches
    have hquiet : ∀ {leftover : Leftover} {id : Fin config.numCpus} {timeLeft : Int},
        event = .cpu leftover id → ¬ Fetching (os.cpus id) timeLeft := by
      rintro leftover id timeLeft rfl hcpu
      exact hfetches (Cpu.fetches_iff.mpr ⟨timeLeft, hcpu⟩)
    cases move_of_step hstep with
    | load => exact ⟨_, _, uses_of_sched_eq hsched rfl hnot⟩
    | loaded => exact ⟨_, _, uses_of_sched_eq hsched rfl hnot⟩
    | addRunning => exact ⟨_, _, uses_of_sched_eq hsched rfl hnot⟩
    | addReady hloader hadd => exact exists_uses_of_ready hsched hadd rfl hnot
    | idle hcpu => exact absurd (hcpu ▸ Fetching.idle _) (hquiet rfl)
    | get hcpu => exact absurd hcpu (hquiet rfl)
    | getNone hcpu => exact absurd hcpu (hquiet rfl)
    | finish => exact ⟨_, _, uses_of_sched_eq hsched rfl hnot⟩
    | put => exact ⟨_, _, uses_of_sched_eq hsched rfl hnot⟩
    | pass => exact ⟨_, _, uses_of_sched_eq hsched rfl hnot⟩
    | putReady hcpu hput => exact exists_uses_of_ready hsched hput rfl hnot
    | stop => exact ⟨_, _, uses_of_sched_eq hsched rfl hnot⟩
    | again => exact ⟨_, _, uses_of_sched_eq hsched rfl hnot⟩
    | runPastEnd => exact ⟨_, _, uses_of_sched_eq hsched rfl hnot⟩
    | run => exact ⟨_, _, uses_of_sched_eq hsched rfl hnot⟩

/-! ## Whole runs -/

/-- A service led the scheduler to where it is. -/
def Serviced (os : Os config.numCpus) : Prop :=
  ∃ service : Service Nat, service.sched = os.sched ∧ service.Counted config.prio

theorem serviced_start (mm : MmStruct) (mram activeMswp : MemphyStruct) :
    (start mm mram activeMswp : Os config.numCpus).Serviced :=
  ⟨Service.start, rfl, Service.counted_start⟩

theorem Serviced.step (hserviced : os.Serviced) (hstep : os.step config event = some next) :
    next.Serviced := by
  obtain ⟨service, hsched, hcounted⟩ := hserviced
  obtain ⟨call, after, huses⟩ := exists_uses hsched hstep
  exact ⟨after, huses.sched_eq, (hcounted.step huses.step_eq).1⟩

/-- How often the CPUs call `get_proc`. -/
def fetchCount (config : Config) (os : Os config.numCpus) (events : List (OsEvent config.numCpus)) :
    Nat :=
  (Runs.taken (step config) os events).countP fun move => move.1.fetches move.2

theorem held_of_turnsLeft {level : Fin maxPrio} {proc position : Nat}
    {events : List (OsEvent config.numCpus)} (hsched : service.sched = os.sched)
    (hcounted : service.Counted config.prio) (hwaits : service.mlq.Waits level proc position)
    (hurgent : ∀ state ∈ Runs.visited (step config) os events, ∀ above < level,
      state.sched.ready above = [])
    (hlong : service.mlq.turnsLeft config.prio level position ≤ fetchCount config os events) :
    ∃ state ∈ Runs.visited (step config) os events, proc ∈ state.held := by
  induction events generalizing os service position with
  | nil => exact absurd hlong (Nat.not_le.mpr (Nat.le_add_right_of_le (Nat.succ_pos _)))
  | cons event events ih =>
      cases hstep : os.step config event with
      | none =>
          simp only [fetchCount, Runs.taken, hstep] at hlong
          exact absurd hlong (Nat.not_le.mpr (Nat.le_add_right_of_le (Nat.succ_pos _)))
      | some next =>
          obtain ⟨call, after, huses⟩ := exists_uses hsched hstep
          obtain ⟨hafter, hmove⟩ := hcounted.step huses.step_eq
          simp only [Runs.visited, hstep, List.mem_cons, forall_eq_or_imp] at hurgent
          have hcount : fetchCount config os (event :: events) =
              fetchCount config next events + if call.selects then 1 else 0 := by
            simp only [fetchCount, Runs.taken, hstep, List.countP_cons, huses.selects_eq]
          rw [hcount] at hlong
          have hlater : ∀ {left : Nat}, after.mlq.Waits level proc left →
              after.mlq.turnsLeft config.prio level left ≤ fetchCount config next events →
                ∃ state ∈ Runs.visited (step config) os (event :: events), proc ∈ state.held := by
            intro left hleft hturns
            obtain ⟨state, hstate, hheld⟩ :=
              ih huses.sched_eq hafter hleft hurgent.2 hturns
            refine ⟨state, ?_, hheld⟩
            simp only [Runs.visited, hstep]
            exact List.mem_cons_of_mem _ hstate
          by_cases hselects : call.selects = true
          · obtain rfl : call = .getProc := by cases call <;> first | rfl | cases hselects
            have habove : ∀ above < level, service.mlq.waiting above = [] := fun above hlt => by
              change service.sched.ready above = []
              rw [hsched]
              exact hurgent.1 above hlt
            rcases hwaits.getProc hcounted.ordered habove hmove with
              hserved | ⟨other, left, -, hleft, hturns⟩
            · refine ⟨next, ?_, huses.held proc hserved⟩
              exact Runs.mem_visited_iff.mpr ⟨[event], ⟨events, rfl⟩, by
                rw [Runs.run_cons, hstep]; rfl⟩
            · refine hlater hleft ?_
              simp only [hselects, if_true] at hlong
              omega
          · have hquiet : call.selects = false := Bool.eq_false_iff.mpr hselects
            obtain ⟨hserved, hleft⟩ := hwaits.keep hmove hquiet
            refine hlater hleft ?_
            rw [Mlq.turnsLeft_congr hserved]
            simpa [hquiet] using hlong

/-- Bounded waiting. While no process of a more urgent level is ready, a process gets a CPU
within as many calls of `get_proc` as it has processes before it in its queue, one more for each
time that its level has had all its slots, and two. The CPUs may take their steps in any order. -/
theorem visited_held_within (config : Config) (mm : MmStruct) (mram activeMswp : MemphyStruct)
    (events later : List (OsEvent config.numCpus)) (os : Os config.numCpus)
    (hrun : Runs.run (step config) (start mm mram activeMswp) events = some os)
    (level : Fin maxPrio) (proc : Nat) (before after : List Nat)
    (hwaits : os.sched.ready level = before ++ proc :: after)
    (hurgent : ∀ state ∈ Runs.visited (step config) os later, ∀ above < level,
      state.sched.ready above = [])
    (hlong : before.length + before.length / Mlq.quota level + 2 ≤
      fetchCount config os later) :
    ∃ state ∈ Runs.visited (step config) os later, proc ∈ state.held := by
  obtain ⟨service, hsched, hcounted⟩ := Runs.run_invariant Serviced (fun _ => True)
    (fun _ _ _ _ hserviced hstep => hserviced.step hstep) (fun _ _ => trivial)
    (serviced_start mm mram activeMswp) hrun
  refine held_of_turnsLeft hsched hcounted ⟨before, after, ?_, rfl⟩ hurgent ?_
  · rw [← hwaits, ← hsched]
    rfl
  · have hpositive := Mlq.quota_pos level
    exact (Laps.turnsUntil_le hpositive (Laps.lap_le hpositive _) _).trans hlong

/-- Two processes of one level for three CPUs. -/
def threeCpus : Config where
  timeSlot := 1
  numCpus := 3
  numProcesses := 2
  prio _ := 139
  text _ := [{ opcode := .calc, arg0 := 0, arg1 := 0, arg2 := 0, arg3 := 0 }]
  numProcesses_lt := two_processes_lt
  size_lt _ := Nat.one_lt_two_pow (by decide)

/-- The loader adds both processes. -/
def threeCpusLoaded : List (OsEvent threeCpus.numCpus) := List.replicate 6 (.loader .null)

/-- The first CPU runs one process to its end and fetches the other one. The second CPU looks
for a process as well. -/
def threeCpusLater : List (OsEvent threeCpus.numCpus) :=
  let first : Fin threeCpus.numCpus := ⟨0, Nat.succ_pos 2⟩
  let second : Fin threeCpus.numCpus := ⟨1, Nat.one_lt_succ_succ 1⟩
  [.cpu .zero first, .cpu .zero first, .cpu .zero first, .cpu .zero first, .cpu .zero second,
    .cpu .zero second]

theorem visited_held_within_three_cpus :
    ∃ os, Runs.run (step threeCpus)
        (start (initMm .null) singleProcess.mram singleProcess.activeMswp) threeCpusLoaded =
          some os ∧
      os.sched.ready ⟨139, by decide⟩ = [0, 1] ∧ fetchCount threeCpus os threeCpusLater = 4 ∧
        ∃ state ∈ Runs.visited (step threeCpus) os threeCpusLater, 1 ∈ state.held := by
  have hfinal : (Runs.run (step threeCpus)
      (start (initMm .null) singleProcess.mram singleProcess.activeMswp) threeCpusLoaded).map
        (fun os => (os.sched.ready ⟨139, by decide⟩, fetchCount threeCpus os threeCpusLater,
          (Runs.visited (step threeCpus) os threeCpusLater).all fun state =>
            ∀ above < (⟨139, by decide⟩ : Fin maxPrio), state.sched.ready above = [])) =
      some ([0, 1], 4, true) := by
    decide +kernel
  obtain ⟨os, hrun, hfields⟩ := Option.map_eq_some_iff.mp hfinal
  obtain ⟨hready, hfields⟩ := Prod.mk.inj hfields
  obtain ⟨hcount, habove⟩ := Prod.mk.inj hfields
  have hbound : [0].length + [0].length / Mlq.quota ⟨139, by decide⟩ + 2 ≤ 4 := by decide
  refine ⟨os, hrun, hready, hcount, visited_held_within threeCpus _ _ _ _ threeCpusLater os hrun
    ⟨139, by decide⟩ 1 [0] [] hready (fun state hstate => ?_) (hbound.trans_eq hcount.symm)⟩
  exact of_decide_eq_true (List.all_eq_true.mp habove state hstate)

end Os

end SimpleOs
