import SimpleOs.Foundation.Runs
import SimpleOs.Sched.Sched
import SimpleOs.System.Cpu

/-! # The simulator

`os.c`: the loader and the CPUs as threads over the scheduler, the kernel structure and
the process structures. A step is what one thread does up to its next access to shared
state: `get_proc`, each of the two insertions of `put_proc` and `add_proc`, the `free` of a
finished process, and `run` are one step each. The timer allows every order of steps, so
it is left out. A process is named by its position in the configuration, which `load`
follows, and the name stands for the pointer to its process structure.
-/

namespace SimpleOs

/-- What `read_config` and the process files fix. `num_processes` and `code->size` are
32-bit counters. -/
structure Config where
  timeSlot : Int
  numCpus : Nat
  numProcesses : Nat
  prio : Nat → Nat
  text : Nat → List InstT
  numProcesses_lt : numProcesses < 2 ^ 31
  size_lt : ∀ proc, (text proc).length < 2 ^ 32

/-- Two processes are within the range of an `int`. -/
theorem two_processes_lt : 2 < 2 ^ 31 := by decide

theorem no_processes_lt : 0 < 2 ^ 31 := by decide

/-- `struct pcb_t`: the fields that `load` sets and the simulator reads. The field `prio` is
written once, before the process is added, so it stays in the configuration. -/
structure Pcb where
  pid : Word32
  code : List InstT
  pc : Nat

/-- Where a CPU stands in an iteration of `cpu_routine`, with the local variables that are
live there: `proc`, `none` for `NULL`, and `time_left`. -/
inductive Cpu where
  /-- at the top of the loop -/
  | top (proc : Option Nat) (timeLeft : Int)
  /-- in `put_proc`, before the insertion into the ready queue -/
  | putReady (proc : Nat) (timeLeft : Int)
  /-- before the `get_proc` that follows `put_proc` -/
  | afterPut (timeLeft : Int)
  /-- before the `get_proc` that follows `free` -/
  | afterFree
  /-- at the second check of the process -/
  | recheck (proc : Option Nat) (timeLeft : Int)
  | stopped
  deriving DecidableEq

/-- The process that a CPU holds. -/
def Cpu.proc : Cpu → Option Nat
  | .top proc _ => proc
  | .putReady proc _ => some proc
  | .afterPut _ => none
  | .afterFree => none
  | .recheck proc _ => proc
  | .stopped => none

/-- Where the loader stands in an iteration of `ld_routine`. -/
inductive LoaderLocation where
  | load
  | addRunning
  | addReady
  | stopped
  deriving DecidableEq

/-- The local variables of `ld_routine`. -/
structure Loader where
  location : LoaderLocation
  i : Nat
  deriving DecidableEq

/-- What is recorded of a process: its dispatches, the instructions it executes, by index,
and how its turns end. -/
inductive Mark where
  | dispatch
  | execute (index : Nat)
  | put
  | finish
  deriving DecidableEq

/-- The state of the simulator, with a record of what happened. -/
structure Os (numCpus : Nat) where
  sched : Sched Nat
  mm : MmStruct
  mram : MemphyStruct
  activeMswp : MemphyStruct
  pcbs : Nat → Pcb
  freed : List Nat
  cpus : Fin numCpus → Cpu
  loader : Loader
  done : Bool
  log : List (Nat × Mark)

/-- What an instruction finds where it reads memory that nobody wrote: in the local variable
of `libread`, and as the `pid` of a freed process structure, whose access can also fault. -/
structure Leftover where
  junk : Byte
  freedPid : Nat → Except Fault Word32

def Leftover.zero : Leftover where
  junk := 0
  freedPid _ := .ok 0

/-- An event: which thread takes its next step. The first argument of each is what
unwritten memory holds there. -/
inductive OsEvent (numCpus : Nat) where
  | loader (garbage : ListEnd)
  | cpu (leftover : Leftover) (id : Fin numCpus)

namespace Os

variable {numCpus : Nat}

/-- The state in which `main` starts the threads. The descriptor behind `krnl->mm` is not
there yet, and nothing reads it before the first admission. -/
def start (mm : MmStruct) (mram activeMswp : MemphyStruct) : Os numCpus where
  sched := Sched.initScheduler
  mm := mm
  mram := mram
  activeMswp := activeMswp
  pcbs _ := { pid := 0, code := [], pc := 0 }
  freed := []
  cpus _ := .top none 0
  loader := { location := .load, i := 0 }
  done := false
  log := []

/-- Following a pointer to a process structure. -/
def pcb (os : Os numCpus) (proc : Nat) : Except Fault Pcb :=
  if proc ∈ os.freed then .error .useAfterFree else .ok (os.pcbs proc)

/-- `proc->pid` -/
def pidOf (os : Os numCpus) (proc : Nat) : Except Fault Word32 := (os.pcb proc).map Pcb.pid

/-- `proc->pid` as the search of a system call reads it, also from a freed structure. -/
def readPid (os : Os numCpus) (leftover : Leftover) (proc : Nat) : Except Fault Word32 :=
  if proc ∈ os.freed then leftover.freedPid proc else .ok (os.pcbs proc).pid

/-- The kernel structure. Its `running_list` points to the one of the scheduler. -/
def krnl (os : Os numCpus) : Krnl Nat where
  runningList := os.sched.runningList
  mm := os.mm
  mram := os.mram
  activeMswp := os.activeMswp

def setKrnl (os : Os numCpus) (krnl : Krnl Nat) : Os numCpus :=
  { os with
    sched := { os.sched with runningList := krnl.runningList }
    mm := krnl.mm
    mram := krnl.mram
    activeMswp := krnl.activeMswp }

def setCpu (os : Os numCpus) (id : Fin numCpus) (cpu : Cpu) : Os numCpus :=
  { os with cpus := Function.update os.cpus id cpu }

def setPcb (os : Os numCpus) (proc : Nat) (pcb : Pcb) : Os numCpus :=
  { os with pcbs := Function.update os.pcbs proc pcb }

def mark (os : Os numCpus) (proc : Nat) (mark : Mark) : Os numCpus :=
  { os with log := os.log ++ [(proc, mark)] }

/-- `proc->pc++`, with the record that the instruction at the old `pc` is executed. -/
def advance (os : Os numCpus) (proc : Nat) : Os numCpus :=
  (os.setPcb proc { os.pcbs proc with pc := (os.pcbs proc).pc + 1 }).mark proc
    (.execute (os.pcbs proc).pc)

/-- `run`, without its status. -/
def run (os : Os numCpus) (leftover : Leftover) (proc : Nat) : Except Fault (Os numCpus) := do
  let pcb ← os.pcb proc
  match pcb.code[pcb.pc]? with
  | none => return os
  | some ins =>
      let os := os.advance proc
      let (_, krnl) ← ins.execute (os.readPid leftover) leftover.junk os.krnl pcb.pid
      return os.setKrnl krnl

/-- The message `Dispatched process`, which a CPU prints when no time is left. -/
def dispatch (os : Os numCpus) (proc : Nat) (timeLeft : Int) : Os numCpus :=
  { os with log := if timeLeft = 0 then os.log ++ [(proc, .dispatch)] else os.log }

/-- The checks at the top of the loop of `cpu_routine`. An idle CPU whose `get_proc` finds
nothing starts over without the second check. -/
def cpuTop (os : Os numCpus) (id : Fin numCpus) (proc : Option Nat) (timeLeft : Int) :
    Except Fault (Os numCpus) :=
  match proc with
  | none =>
      match os.sched.getProc with
      | (none, sched) => .ok { os with sched := sched }
      | (some proc, sched) => .ok ({ os with sched := sched }.setCpu id (.recheck proc timeLeft))
  | some proc => do
      let pcb ← os.pcb proc
      if pcb.pc = pcb.code.length then
        -- `running_list` keeps its pointers to the freed structure
        return ({ os with freed := proc :: os.freed }.mark proc .finish).setCpu id .afterFree
      else if timeLeft = 0 then
        return ({ os with sched := os.sched.enqueueRunning proc }.mark proc .put).setCpu id
          (.putReady proc timeLeft)
      else return os.setCpu id (.recheck proc timeLeft)

/-- The second half of `put_proc`. -/
def cpuPutReady (prio : Nat → Nat) (os : Os numCpus) (id : Fin numCpus) (proc : Nat)
    (timeLeft : Int) : Except Fault (Os numCpus) := do
  let _ ← os.pcb proc
  let sched ← Sched.putMlqProc prio os.sched proc
  return { os with sched := sched }.setCpu id (.afterPut timeLeft)

/-- `proc = get_proc()` after a process was put back or freed. -/
def cpuGet (os : Os numCpus) (id : Fin numCpus) (timeLeft : Int) : Os numCpus :=
  let (proc, sched) := os.sched.getProc
  { os with sched := sched }.setCpu id (.recheck proc timeLeft)

/-- The second check, and the rest of the iteration. -/
def cpuRecheck (timeSlot : Int) (os : Os numCpus) (leftover : Leftover) (id : Fin numCpus)
    (proc : Option Nat) (timeLeft : Int) : Except Fault (Os numCpus) :=
  match proc with
  | none =>
      if os.done then .ok (os.setCpu id .stopped) else .ok (os.setCpu id (.top none timeLeft))
  | some proc => do
      let os ← (os.dispatch proc timeLeft).run leftover proc
      -- `time_left` is set before `run`, which does not see it
      let timeLeft := if timeLeft = 0 then timeSlot else timeLeft
      return os.setCpu id (.top proc (timeLeft - 1))

/-- A step of a CPU. -/
def cpuStep (config : Config) (os : Os numCpus) (leftover : Leftover) (id : Fin numCpus) :
    Option (Os numCpus) :=
  match os.cpus id with
  | .top proc timeLeft => (os.cpuTop id proc timeLeft).toOption
  | .putReady proc timeLeft => (os.cpuPutReady config.prio id proc timeLeft).toOption
  | .afterPut timeLeft => some (os.cpuGet id timeLeft)
  | .afterFree => some (os.cpuGet id 0)
  | .recheck proc timeLeft => (os.cpuRecheck config.timeSlot leftover id proc timeLeft).toOption
  | .stopped => none

/-- What `load` makes of a process file. -/
def newPcb (config : Config) (i : Nat) : Pcb where
  pid := BitVec.ofNat 32 (i + 1)
  code := config.text i
  pc := 0

/-- A step of the loader. `load` is taken together with the admission to the kernel
structure, before which nothing can reach the process. -/
def loaderStep (config : Config) (os : Os numCpus) (garbage : ListEnd) : Option (Os numCpus) :=
  let loader := os.loader
  match loader.location with
  | .load =>
      if loader.i < config.numProcesses then
        -- `os` is one structure for all processes, so the admission replaces everyone's `mm`
        some { os.setPcb loader.i (newPcb config loader.i) with
          mm := initMm garbage
          loader := { loader with location := .addRunning } }
      else some { os with loader := { loader with location := .stopped }, done := true }
  | .addRunning =>
      some { os with
        sched := os.sched.enqueueRunning loader.i
        loader := { loader with location := .addReady } }
  | .addReady =>
      (Sched.addMlqProc config.prio os.sched loader.i).toOption.map fun sched =>
        { os with sched := sched, loader := { location := .load, i := loader.i + 1 } }
  | .stopped => none

def step (config : Config) (os : Os numCpus) : OsEvent numCpus → Option (Os numCpus)
  | .loader garbage => os.loaderStep config garbage
  | .cpu leftover id => os.cpuStep config leftover id

end Os

end SimpleOs
