import Mathlib.Algebra.BigOperators.Fin
import SimpleOs.System.Pace
import SimpleOs.System.ReadConfig

/-! # From the files to the end of a run

`main` of `os.c`: the configuration and the programs are read from files, the devices are
made, and the threads are started. What the files say decides how long the simulator needs to
finish the work in them.
-/

namespace SimpleOs

open Scan

/-- `fopen`, with the contents of the files. Nothing writes to them. -/
abbrev Files := List Char → Option (List Char)

/-- What memory holds where `main` and the loader have not written: in the array `prio`, in
what `load` allocates for a process, in the structures of the devices and behind their last
frame. -/
structure BootMemory where
  prio : Nat → BitVec 64
  proc : Nat → Unwritten
  mram : MemphyStruct
  mswp : Fin pagingMaxMmswp → MemphyStruct
  garbage : ListEnd

/-! ## The programs -/

/-- A process that was loaded. Its `size` is a 32-bit counter. -/
structure LoadedProgram extends LoadedProc where
  size_lt : text.length < 2 ^ 32

theorem length_loadText {text : Nat → InstT} {index count : Nat} {st : LoadState}
    {instructions : List InstT} (hload : loadText text index count st = .ok instructions) :
    instructions.length = count := by
  induction count generalizing index st instructions with
  | zero =>
      cases hload
      rfl
  | succ count ih =>
      unfold loadText at hload
      cases hinst : st.scanInst with
      | error failure =>
          rw [hinst] at hload
          cases hload
      | ok scanned =>
          obtain ⟨⟨opcode, operands⟩, next⟩ := scanned
          rw [hinst] at hload
          cases hrest : loadText text (index + 1) count next with
          | error failure =>
              simp only [bind, Except.bind, hrest] at hload
              cases hload
          | ok rest =>
              simp only [bind, Except.bind, hrest] at hload
              cases hload
              exact congrArg (· + 1) (ih hrest)

theorem length_lt_of_load {unwritten : Unwritten} {file : List Char} {proc : LoadedProc}
    (hload : load unwritten file = .ok proc) : proc.text.length < 2 ^ 32 := by
  unfold load at hload
  cases htext : loadText unwritten.text 0 (scanHeader unwritten file).2.1.toNat
      (scanHeader unwritten file).2.2 with
  | error failure =>
      simp only [htext, bind, Except.bind] at hload
      cases hload
  | ok text =>
      simp only [htext, bind, Except.bind] at hload
      cases hload
      exact (length_loadText htext).trans_lt (BitVec.isLt _)

/-- `fopen`, after which the program ends when there is no such file. -/
def openFile (files : Files) (path : List Char) : Except LoadFailure (List Char) :=
  match files path with
  | none => .error .exit
  | some file => .ok file

/-- `load` with its check of the file. -/
def loadFile (files : Files) (unwritten : Unwritten) (path : List Char) :
    Except LoadFailure LoadedProgram := do
  let file ← openFile files path
  match hload : load unwritten file with
  | .error failure => .error failure
  | .ok proc => .ok { proc with size_lt := length_lt_of_load hload }

/-- The programs that the loader is going to load. It loads each of them when it gets to it,
and a file that cannot be loaded ends the simulator then. -/
def loadFiles (files : Files) (unwritten : Nat → Unwritten) (index : Nat) :
    List LdProcess → Except LoadFailure (List LoadedProgram)
  | [] => .ok []
  | process :: processes => do
      let program ← loadFile files (unwritten index) process.path
      let programs ← loadFiles files unwritten (index + 1) processes
      return program :: programs

/-! ## The machine -/

/-- What the threads run with. The loops over the CPUs and the processes make no pass when
their number is negative, and the field `prio` of a process has 32 bits. -/
def ConfigArgs.timedConfig (args : ConfigArgs) (programs : List LoadedProgram) : TimedConfig where
  timeSlot := args.timeSlot.toInt
  numCpus := args.numCpus.toInt.toNat
  numProcesses := args.numProcesses.toInt.toNat
  prio proc :=
    match args.ldProcesses[proc]? with
    | none => 0
    | some process => (process.prio.setWidth 32).toNat
  text proc :=
    match programs[proc]? with
    | none => []
    | some program => program.text
  startTime proc :=
    match args.ldProcesses[proc]? with
    | none => 0
    | some process => process.startTime
  numProcesses_lt := by
    have hlt : args.numProcesses.toInt < 2 ^ 31 := BitVec.toInt_lt
    omega
  size_lt proc := by
    split
    next => exact Nat.two_pow_pos 32
    next program hprogram => exact program.size_lt

/-- What `main` hands to the threads. -/
structure Booted where
  config : TimedConfig
  mram : MemphyStruct
  mswp : Fin pagingMaxMmswp → MemphyStruct

/-- `init_memphy`, for a device with random access. -/
def BootMemory.device (memory : BootMemory) (mp : MemphyStruct) (size : Word32) : MemphyStruct :=
  initMemphy mp (size.signExtend 64) 1 memory.garbage

def ConfigArgs.booted (args : ConfigArgs) (memory : BootMemory)
    (programs : List LoadedProgram) : Booted where
  config := args.timedConfig programs
  mram := memory.device memory.mram args.memramsz
  mswp sit := memory.device (memory.mswp sit) (args.memswpsz[sit.val]?.getD 0)

/-- `input/` -/
def inputDirectory : List Char := ['i', 'n', 'p', 'u', 't', '/']

/-- `main`, up to the start of the threads. The path is put together in an array of 100
characters, and there is no storage for a device of a negative size. -/
def boot (files : Files) (memory : BootMemory) (name : List Char) :
    Except LoadFailure Booted := do
  if 100 ≤ (inputDirectory ++ name).length then .error .undefined
  else
    let file ← openFile files (inputDirectory ++ name)
    let args ← readConfig memory.prio file
    if (args.memramsz :: args.memswpsz).any (·.toInt < 0) then .error .undefined
    else
      let programs ← loadFiles files memory.proc 0 args.ldProcesses
      return args.booted memory programs

/-- The threads start, with the first swap device as the active one. -/
def Booted.start (booted : Booted) (mm : MmStruct) : TimedOs booted.config.numCpus :=
  .start mm booted.mram (booted.mswp ⟨0, Nat.succ_pos 3⟩)

/-! ## What the files say -/

/-- A configuration, and the programs by the names of their files. -/
structure Scenario where
  timeSlot : Word32
  numCpus : Word32
  memramsz : Word32
  memswpsz : List Word32
  jobs : List Job
  priority : List Char → Word32
  lines : List Char → List (InsOpcode × List Addr)

/-- The files write the scenario, in any layout. -/
structure Scenario.WrittenTo (scenario : Scenario) (files : Files) (name : List Char) :
    Prop where
  name_length : name.length < 94
  config : ∃ file rest, files (inputDirectory ++ name) = some file ∧
    Begins (configWords scenario.timeSlot scenario.numCpus scenario.memramsz scenario.memswpsz
      scenario.jobs) rest file
  programs : ∀ job ∈ scenario.jobs, ∃ file, files (procDirectory ++ job.name) = some file ∧
    WritesProgram (scenario.priority job.name) (scenario.lines job.name) file

/-- A machine with a CPU and a quantum, whose ready queues have room for all processes. The
time does not wrap around while they arrive. -/
structure Scenario.Workable (scenario : Scenario) : Prop where
  timeSlot_pos : 0 < scenario.timeSlot.toInt
  numCpus_pos : 0 < scenario.numCpus.toInt
  sizes : ∀ size ∈ scenario.memramsz :: scenario.memswpsz, 0 ≤ size.toInt
  swaps : scenario.memswpsz.length = pagingMaxMmswp
  jobs_le : scenario.jobs.length ≤ maxQueueSize
  named : ∀ job ∈ scenario.jobs, job.Named
  size_lt : ∀ job ∈ scenario.jobs, (scenario.lines job.name).length < 2 ^ 32
  startTime_le : ∀ job ∈ scenario.jobs,
    job.startTime.toNat + scenario.jobs.length ≤ 2 ^ 64

namespace Scenario

/-- The calls of `run` that all jobs need, where an empty program needs one too. -/
def workload (scenario : Scenario) : Nat :=
  (scenario.jobs.map fun job => max 1 (scenario.lines job.name).length).sum

/-- The slot after the arrival of some jobs. -/
def arrived (jobs : List Job) : Nat :=
  jobs.foldl (fun slot job => max job.startTime.toNat slot + 1) 0

/-- How many steps the machine needs at most to finish all jobs. -/
def stepsToFinish (scenario : Scenario) : Nat :=
  7 * scenario.numCpus.toInt.toNat + 9 + (8 * scenario.numCpus.toInt.toNat + 12) *
    (arrived scenario.jobs + scenario.workload)

/-- What `read_config` makes of the scenario. -/
def args (scenario : Scenario) : ConfigArgs where
  timeSlot := scenario.timeSlot
  numCpus := scenario.numCpus
  numProcesses := BitVec.ofNat 32 scenario.jobs.length
  memramsz := scenario.memramsz
  memswpsz := scenario.memswpsz
  ldProcesses := scenario.jobs.map Job.ldProcess

/-- The instructions of a job, over what the array for them held. -/
def instructions (scenario : Scenario) (unwritten : Unwritten) (job : Job) : List InstT :=
  assignFrom unwritten.text 0 (scenario.lines job.name)

end Scenario

/-! ## Reading the files -/

theorem loadFile_of_writes {files : Files} {path file : List Char} {priority : Word32}
    {lines : List (InsOpcode × List Addr)} (hfile : files path = some file)
    (hsize : lines.length < 2 ^ 32) (hwrites : WritesProgram priority lines file)
    (unwritten : Unwritten) :
    ∃ program, loadFile files unwritten path = .ok program ∧
      program.text = assignFrom unwritten.text 0 lines := by
  have hload : load unwritten file = .ok
      { priority := (scanHeader unwritten file).1, text := assignFrom unwritten.text 0 lines } := by
    rw [load_eq, (scanProgram_of_writes hsize hwrites unwritten).1]
    rfl
  unfold loadFile openFile
  simp only [hfile, bind, Except.bind]
  split
  next failure hfailure =>
    rw [hload] at hfailure
    cases hfailure
  next loaded hloaded =>
    rw [hload] at hloaded
    cases hloaded
    exact ⟨_, rfl, rfl⟩

/-- The loader finds the program of every job. -/
theorem loadFiles_of_written {files : Files} {priority : List Char → Word32}
    {lines : List Char → List (InsOpcode × List Addr)} {jobs : List Job}
    (hsize : ∀ job ∈ jobs, (lines job.name).length < 2 ^ 32)
    (hwritten : ∀ job ∈ jobs, ∃ file, files (procDirectory ++ job.name) = some file ∧
      WritesProgram (priority job.name) (lines job.name) file)
    (unwritten : Nat → Unwritten) (index : Nat) :
    ∃ programs, loadFiles files unwritten index (jobs.map Job.ldProcess) = .ok programs ∧
      ∀ i, programs[i]?.map (fun program => program.text) = jobs[i]?.map fun job =>
        assignFrom (unwritten (index + i)).text 0 (lines job.name) := by
  induction jobs generalizing index with
  | nil => exact ⟨[], rfl, fun _ => rfl⟩
  | cons job jobs ih =>
      obtain ⟨file, hfile, hwrites⟩ := hwritten job List.mem_cons_self
      obtain ⟨program, hprogram, htext⟩ := loadFile_of_writes hfile
        (hsize job List.mem_cons_self) hwrites (unwritten index)
      obtain ⟨programs, hprograms, hrest⟩ :=
        ih (fun other hother => hsize other (List.mem_cons_of_mem _ hother))
          (fun other hother => hwritten other (List.mem_cons_of_mem _ hother)) (index + 1)
      change loadFile files (unwritten index) job.ldProcess.path = _ at hprogram
      refine ⟨program :: programs, ?_, fun i => ?_⟩
      · simp only [List.map_cons, loadFiles, hprogram, bind, Except.bind, hprograms]
        rfl
      · cases i with
        | zero => exact congrArg some htext
        | succ i =>
            have hindex : index + (i + 1) = index + 1 + i := by omega
            rw [hindex]
            exact hrest i

/-- The configuration says what the scenario says. -/
structure Scenario.Configures (scenario : Scenario) (memory : BootMemory)
    (config : TimedConfig) : Prop where
  timeSlot_eq : config.timeSlot = scenario.timeSlot.toInt
  numCpus_eq : config.numCpus = scenario.numCpus.toInt.toNat
  numProcesses_eq : config.numProcesses = scenario.jobs.length
  startTime_eq : ∀ proc job, scenario.jobs[proc]? = some job →
    config.startTime proc = job.startTime
  prio_eq : ∀ proc job, scenario.jobs[proc]? = some job →
    config.prio proc = (job.prio.setWidth 32).toNat
  text_eq : ∀ proc job, scenario.jobs[proc]? = some job →
    config.text proc = scenario.instructions (memory.proc proc) job

namespace Scenario

variable {scenario : Scenario} {files : Files} {name : List Char} {memory : BootMemory}

theorem Workable.jobs_lt (hworkable : scenario.Workable) : scenario.jobs.length < 2 ^ 31 :=
  hworkable.jobs_le.trans_lt (by decide)

theorem configures_of_programs (hworkable : scenario.Workable) {programs : List LoadedProgram}
    (hprograms : ∀ i, programs[i]?.map (fun program => program.text) =
      scenario.jobs[i]?.map (scenario.instructions (memory.proc i))) :
    scenario.Configures memory (scenario.args.timedConfig programs) where
  timeSlot_eq := rfl
  numCpus_eq := rfl
  numProcesses_eq := by
    have hlt := hworkable.jobs_lt
    change (BitVec.ofNat 32 scenario.jobs.length).toInt.toNat = _
    rw [BitVec.toInt_ofNat', Int.bmod_eq_of_le (by omega) (by omega)]
    rfl
  startTime_eq proc job hjob := by
    simp only [ConfigArgs.timedConfig, args, List.getElem?_map, hjob, Option.map_some]
    rfl
  prio_eq proc job hjob := by
    simp only [ConfigArgs.timedConfig, args, List.getElem?_map, hjob, Option.map_some]
    rfl
  text_eq proc job hjob := by
    have hprogram := hprograms proc
    rw [hjob] at hprogram
    obtain ⟨program, hsome, htext⟩ := Option.map_eq_some_iff.mp hprogram
    simp only [ConfigArgs.timedConfig, hsome, htext]

/-- `main` reads the scenario, whatever memory held. -/
theorem exists_boot (hworkable : scenario.Workable) (hwritten : scenario.WrittenTo files name)
    (memory : BootMemory) :
    ∃ booted, boot files memory name = .ok booted ∧ scenario.Configures memory booted.config := by
  obtain ⟨file, rest, hfile, hbegins⟩ := hwritten.config
  have hconfig : readConfig memory.prio file = .ok scenario.args :=
    readConfig_of_begins _ _ _ _ _ _ rest file hworkable.swaps hworkable.jobs_lt
      hworkable.named hbegins
  obtain ⟨programs, hprograms, htexts⟩ :=
    loadFiles_of_written hworkable.size_lt hwritten.programs memory.proc 0
  simp only [Nat.zero_add] at htexts
  refine ⟨scenario.args.booted memory programs, ?_,
    configures_of_programs hworkable htexts⟩
  have hpath : ¬ 100 ≤ (inputDirectory ++ name).length := by
    have hlength := hwritten.name_length
    have hdirectory : inputDirectory.length = 6 := rfl
    rw [List.length_append, hdirectory]
    omega
  have hsizes : ¬ (scenario.args.memramsz :: scenario.args.memswpsz).any (·.toInt < 0) := by
    rw [List.any_eq_true]
    rintro ⟨size, hsize, hnegative⟩
    exact absurd (hworkable.sizes size hsize) (Int.not_le.mpr (of_decide_eq_true hnegative))
  have hload : loadFiles files memory.proc 0 scenario.args.ldProcesses = .ok programs := hprograms
  unfold boot openFile
  simp only [if_neg hpath, hfile, hconfig, bind, Except.bind, if_neg hsizes, hload]
  rfl

/-! ## What the configuration asks of the machine -/

variable {config : TimedConfig}

theorem Configures.earliest_eq (hconfigures : scenario.Configures memory config) {count : Nat}
    (hcount : count ≤ scenario.jobs.length) :
    config.earliest count = arrived (scenario.jobs.take count) := by
  induction count with
  | zero => rfl
  | succ count ih =>
      have hbefore := ih (Nat.le_of_succ_le hcount)
      have hjob := List.getElem?_eq_getElem hcount
      rw [arrived, List.take_succ_eq_append_getElem hcount, List.foldl_append]
      change config.arrival count + 1 = max _ (arrived _) + 1
      rw [TimedConfig.arrival_eq, hconfigures.startTime_eq count _ hjob, hbefore]

theorem Configures.lastArrival_succ (hconfigures : scenario.Configures memory config)
    (hjobs : 0 < scenario.jobs.length) : config.lastArrival + 1 = arrived scenario.jobs := by
  have hlast := hconfigures.earliest_eq (Nat.le_refl scenario.jobs.length)
  rw [List.take_length] at hlast
  rw [← hlast, TimedConfig.lastArrival, hconfigures.numProcesses_eq]
  obtain ⟨count, hcount⟩ := Nat.exists_eq_add_one_of_ne_zero hjobs.ne'
  rw [hcount]
  rfl

theorem length_assignFrom (text : Nat → InstT) (index : Nat)
    (lines : List (InsOpcode × List Addr)) : (assignFrom text index lines).length = lines.length := by
  induction lines generalizing index with
  | nil => rfl
  | cons line lines ih => exact congrArg (· + 1) (ih (index + 1))

theorem Configures.workload_eq (hconfigures : scenario.Configures memory config) :
    config.workload = scenario.workload := by
  unfold Config.workload workload
  rw [hconfigures.numProcesses_eq, Finset.sum_range, ← Fin.sum_univ_fun_getElem]
  apply Finset.sum_congr rfl
  intro proc _
  have hjob := List.getElem?_eq_getElem proc.isLt
  unfold Config.need
  rw [hconfigures.text_eq proc _ hjob, instructions, length_assignFrom]

theorem Configures.feasible (hconfigures : scenario.Configures memory config)
    (hworkable : scenario.Workable) : config.Feasible where
  numCpus_pos := by
    have hpositive := hworkable.numCpus_pos
    rw [hconfigures.numCpus_eq]
    omega
  timeSlot_pos := hconfigures.timeSlot_eq ▸ hworkable.timeSlot_pos
  numProcesses_le := hconfigures.numProcesses_eq ▸ hworkable.jobs_le
  arrival_lt proc hproc := by
    rw [hconfigures.numProcesses_eq] at hproc
    apply Nat.lt_of_le_sub_one (Nat.two_pow_pos 64)
    apply TimedConfig.arrival_le_iff.mpr
    intro before hbefore
    have hlt : before < scenario.jobs.length := hbefore.trans_lt hproc
    have hstart := hworkable.startTime_le _ (List.getElem_mem hlt)
    rw [hconfigures.startTime_eq before _ (List.getElem?_eq_getElem hlt)]
    omega

end Scenario

/-! ## Whole runs -/

/-- A job is finished when its process was freed after it executed the instructions of its
file, each once and in their order. -/
structure Os.Finished {config : Config} (os : Os config.numCpus) (proc : Nat)
    (instructions : List InstT) : Prop where
  freed : proc ∈ os.freed
  code_eq : (os.pcbs proc).code = instructions
  executed_eq : executed (os.ownLog proc) = List.range instructions.length

/-- From the files to the end of the work. Whatever the layout of the files, whatever memory
held and whatever the order of the steps, the simulator starts with what the files say, and no
run of it is longer than the number of steps that they fix without having finished all jobs. -/
theorem boot_finishes (scenario : Scenario) (hworkable : scenario.Workable) (files : Files)
    (name : List Char) (hwritten : scenario.WrittenTo files name) (memory : BootMemory) :
    ∃ booted, boot files memory name = .ok booted ∧
      scenario.Configures memory booted.config ∧
      ∀ mm events state, Runs.run (TimedOs.step booted.config) (booted.start mm) events =
          some state → scenario.stepsToFinish < events.length →
        ∀ proc job, scenario.jobs[proc]? = some job →
          state.os.Finished proc (scenario.instructions (memory.proc proc) job) := by
  obtain ⟨booted, hboot, hconfigures⟩ := Scenario.exists_boot hworkable hwritten memory
  refine ⟨booted, hboot, hconfigures, fun mm events state hrun hlong proc job hjob => ?_⟩
  have hfeasible := hconfigures.feasible hworkable
  have hproc : proc < booted.config.numProcesses := by
    rw [hconfigures.numProcesses_eq]
    exact (List.getElem?_eq_some_iff.mp hjob).1
  have hbusy := TimedOs.busy_of_visited hfeasible mm booted.mram _ events state
    (Runs.mem_visited_iff.mpr ⟨events, List.prefix_rfl, hrun⟩)
  have hticks : booted.config.lastArrival + booted.config.workload + 1 < state.timer.ticks := by
    refine Nat.lt_of_add_left_lt ((TimedOs.paid booted.config).clock_lt
      (TimedOs.coupled_start mm booted.mram (booted.mswp ⟨0, Nat.succ_pos 3⟩)) hrun ?_)
    have harrived := hconfigures.lastArrival_succ (Nat.zero_lt_of_lt
      (hconfigures.numProcesses_eq ▸ hproc))
    unfold Scenario.stepsToFinish at hlong
    rw [← harrived, ← hconfigures.workload_eq, ← hconfigures.numCpus_eq] at hlong
    change TimedOs.rank (TimedOs.start _ _ _) + _ < _
    rw [TimedOs.rank_start, TimedOs.price]
    rwa [Nat.add_right_comm booted.config.lastArrival] at hlong
  have hfreed := hbusy.freed_of_ticks hfeasible.numProcesses_le hticks hproc
  have htracked := hbusy.work.tracked
  have hloaded : proc < state.os.loaded :=
    (htracked.owned.added_of_held (Or.inr hfreed)).trans_le state.os.i_le_loaded
  have htext := hconfigures.text_eq proc job hjob
  have honce := htracked.exactlyOnce hfeasible.numProcesses_le
  refine ⟨hfreed, (htracked.code proc hloaded).trans htext, ?_⟩
  rw [honce.executed proc hloaded, (honce.released proc hfreed).1, htext]

/-- A process with one instruction, which arrives in the second slot. -/
def oneJobScenario : Scenario where
  timeSlot := 1
  numCpus := 1
  memramsz := 512
  memswpsz := [256, 0, 0, 0]
  jobs := [{ startTime := 1, name := ['p'], prio := 0 }]
  priority _ := 0
  lines _ := [(.calc, [])]

/-- Its files, as they are printed. -/
def oneJobFiles : Files := fun path =>
  if path = inputDirectory ++ ['c'] then
    some (printWords (configWords 1 1 512 [256, 0, 0, 0] oneJobScenario.jobs) ++ [])
  else if path = procDirectory ++ ['p'] then some (printProgram 0 [(.calc, [])])
  else none

def emptyMemory : BootMemory where
  prio _ := 0
  proc _ := { priority := 0, size := 0, opcode := none, buf := none, text := fun _ => filledWith 0 }
  mram := singleProcess.mram
  mswp _ := singleProcess.activeMswp
  garbage := .null

theorem workable_oneJobScenario : oneJobScenario.Workable where
  timeSlot_pos := by decide
  numCpus_pos := by decide
  sizes := by
    simp [oneJobScenario]
  swaps := rfl
  jobs_le := by decide +kernel
  named job hjob := by
    obtain rfl := List.mem_singleton.mp hjob
    exact ⟨by decide, by simp [isSpace], by decide⟩
  size_lt _ _ := Nat.one_lt_two_pow (by decide)
  startTime_le := by decide +kernel

theorem writtenTo_oneJobFiles : oneJobScenario.WrittenTo oneJobFiles ['c'] where
  name_length := by decide
  config := ⟨_, [], rfl, begins_printWords _ trivial⟩
  programs job hjob := by
    obtain rfl := List.mem_singleton.mp hjob
    exact ⟨_, rfl, writesProgram_printProgram 0 (by decide)⟩

/-- The simulator on these files, for eighty steps. -/
theorem boot_finishes_one_job :
    ∃ booted, boot oneJobFiles emptyMemory ['c'] = .ok booted ∧
      ∃ events state, Runs.run (TimedOs.step booted.config)
          (booted.start (initMm .null)) events = some state ∧ events.length = 80 ∧
        state.os.Finished 0 [⟨.calc, 0, 0, 0, 0⟩] := by
  obtain ⟨booted, hboot, -, hfinishes⟩ := boot_finishes oneJobScenario workable_oneJobScenario
    oneJobFiles ['c'] writtenTo_oneJobFiles emptyMemory
  have hevaluated : (boot oneJobFiles emptyMemory ['c']).toOption.map (fun booted =>
      if hcpus : TimedOs.oneJob.numCpus = booted.config.numCpus then
        (Runs.run (TimedOs.step booted.config) (booted.start (initMm .null))
          (hcpus ▸ TimedOs.endlessEvents 4)).isSome
      else false) = some true := by
    decide +kernel
  rw [hboot] at hevaluated
  have hrun := Option.some.inj hevaluated
  beta_reduce at hrun
  split at hrun
  next hcpus =>
    obtain ⟨state, hstate⟩ := Option.isSome_iff_exists.mp hrun
    have hlength : ∀ {numCpus : Nat} (hcpus : TimedOs.oneJob.numCpus = numCpus),
        (hcpus ▸ TimedOs.endlessEvents 4 : List (TimedEvent numCpus)).length = 80 := by
      rintro _ rfl
      rfl
    have hlong : oneJobScenario.stepsToFinish < 80 := by decide +kernel
    exact ⟨booted, hboot, _, state, hstate, hlength hcpus,
      hfinishes _ _ state hstate (hlong.trans_eq (hlength hcpus).symm) 0 _ rfl⟩
  next => cases hrun

end SimpleOs
