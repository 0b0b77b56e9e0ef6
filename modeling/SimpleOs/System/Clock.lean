import Mathlib.Data.Fin.Rev
import Mathlib.Data.Fintype.Option
import SimpleOs.System.Ownership
import SimpleOs.System.Timer

/-! # The simulator under its timer

`os.c` again, now with the calls of `next_slot`. Every CPU and the loader is a device of the
timer. A thread takes a step only while it is at work in its slot, and calls `next_slot` when
it gets back to the head of its loop. The call is a step of its own, since other threads can
run before it takes the lock of the device.
-/

namespace SimpleOs

/-- The configuration with the field `start_time` of `ld_processes`. -/
structure TimedConfig extends Config where
  startTime : Nat → BitVec 64

/-- The threads that `main` attaches to the timer. -/
inductive Device (numCpus : Nat) where
  | cpu (id : Fin numCpus)
  | loader
  deriving DecidableEq

def Device.equivOption (numCpus : Nat) : Option (Fin numCpus) ≃ Device numCpus where
  toFun
    | some id => .cpu id
    | none => .loader
  invFun
    | .cpu id => some id
    | .loader => none
  left_inv device := by cases device <;> rfl
  right_inv device := by cases device <;> rfl

instance (numCpus : Nat) : Fintype (Device numCpus) := .ofEquiv _ (Device.equivOption numCpus)

/-- The place of a device in `dev_list`. `attach_event` inserts at the front, and the loader
is attached last. -/
def Device.position {numCpus : Nat} : Device numCpus → Fin (numCpus + 1)
  | .cpu id => id.castSucc.rev
  | .loader => (Fin.last numCpus).rev

/-- A call of `run`, with the number of its slot. -/
structure Turn (numCpus : Nat) where
  slot : Nat
  id : Fin numCpus
  proc : Nat
  deriving DecidableEq

/-- The simulator and its timer. `calling` tells which threads are about to call `next_slot`,
`turns` and `arrivals` record the calls of `run` and the slots in which processes were added. -/
structure TimedOs (numCpus : Nat) where
  os : Os numCpus
  timer : Timer (numCpus + 1)
  calling : Device numCpus → Bool
  turns : List (Turn numCpus)
  arrivals : List Nat

/-- The steps of the threads and of the timer. The loader waits for the start time of a
process with `hold`, and `main` calls `stop_timer` once, when all threads have ended. -/
inductive TimedEvent (numCpus : Nat) where
  | loader (garbage : ListEnd)
  | hold
  | cpu (leftover : Leftover) (id : Fin numCpus)
  | enter (device : Device numCpus)
  | leave (device : Device numCpus)
  | detach (device : Device numCpus)
  | timer
  | stop

/-- A CPU ends its iteration with `next_slot`. -/
def Cpu.atHead : Cpu → Bool
  | .top _ _ => true
  | _ => false

/-- The call of `run` that a CPU is about to make. -/
def Cpu.turn {numCpus : Nat} (cpu : Cpu) (slot : Nat) (id : Fin numCpus) : List (Turn numCpus) :=
  match cpu with
  | .recheck (some proc) _ => [{ slot := slot, id := id, proc := proc }]
  | _ => []

namespace TimedOs

variable {numCpus : Nat}

/-- `main` has attached all devices and started the timer and the threads. -/
def start (mm : MmStruct) (mram activeMswp : MemphyStruct) : TimedOs numCpus where
  os := Os.start mm mram activeMswp
  timer := Timer.start (numCpus + 1)
  calling _ := false
  turns := []
  arrivals := []

/-- The record that the timer keeps of a device. -/
def timerId (state : TimedOs numCpus) (device : Device numCpus) : TimerId :=
  state.timer.devices device.position

/-- The thread of the device is in its slot, and not on its way to `next_slot`. -/
def Free (state : TimedOs numCpus) (device : Device numCpus) : Prop :=
  (state.timerId device).phase = .working ∧ state.calling device = false

instance (state : TimedOs numCpus) (device : Device numCpus) : Decidable (state.Free device) :=
  inferInstanceAs (Decidable (_ ∧ _))

/-- The thread of the device has left its loop. -/
def exited (state : TimedOs numCpus) : Device numCpus → Bool
  | .cpu id => state.os.cpus id = .stopped
  | .loader => state.os.loader.location = .stopped

/-- `current_time() < ld_processes.start_time[i]` for the process that `load` returned. -/
def early (config : TimedConfig) (state : TimedOs config.numCpus) : Bool :=
  state.os.loader.location = .load ∧ state.os.loader.i < config.numProcesses ∧
    state.timer.time < config.startTime state.os.loader.i

def setCalling (state : TimedOs numCpus) (device : Device numCpus) (calling : Bool) :
    TimedOs numCpus :=
  { state with calling := Function.update state.calling device calling }

/-- The state after a step of a CPU that leads the simulator to `os`. -/
def afterCpu (state : TimedOs numCpus) (id : Fin numCpus) (os : Os numCpus) : TimedOs numCpus :=
  { state with
    os := os
    turns := state.turns ++ (state.os.cpus id).turn state.timer.ticks id }.setCalling
      (.cpu id) (os.cpus id).atHead

/-- A step of a CPU in its slot. -/
def cpuStep (config : TimedConfig) (state : TimedOs config.numCpus) (leftover : Leftover)
    (id : Fin config.numCpus) : Option (TimedOs config.numCpus) :=
  if state.Free (.cpu id) then
    (state.os.step config.toConfig (.cpu leftover id)).map (state.afterCpu id)
  else none

/-- A step of the loader in its slot. It adds a process and then calls `next_slot`. -/
def loaderStep (config : TimedConfig) (state : TimedOs config.numCpus) (garbage : ListEnd) :
    Option (TimedOs config.numCpus) :=
  if state.Free .loader ∧ state.early config = false then
    (state.os.step config.toConfig (.loader garbage)).map fun os =>
      let adds := state.os.loader.location = .addReady
      { state with
        os := os
        arrivals := if adds then state.arrivals ++ [state.timer.ticks] else state.arrivals
      }.setCalling .loader adds
  else none

/-- A step of the timer or of `next_slot` and `detach_event`. -/
def timerStep (state : TimedOs numCpus) (event : TimerEvent (numCpus + 1)) :
    Option (TimedOs numCpus) :=
  (state.timer.step event).map fun timer => { state with timer := timer }

def step (config : TimedConfig) (state : TimedOs config.numCpus) :
    TimedEvent config.numCpus → Option (TimedOs config.numCpus)
  | .loader garbage => state.loaderStep config garbage
  | .hold =>
      if state.Free .loader ∧ state.early config then some (state.setCalling .loader true)
      else none
  | .cpu leftover id => state.cpuStep config leftover id
  | .enter device =>
      if state.calling device then
        (state.setCalling device false).timerStep (.enter device.position)
      else none
  | .leave device => state.timerStep (.leave device.position)
  | .detach device =>
      if state.exited device ∧ (state.timerId device).fsh = false then
        state.timerStep (.detach device.position)
      else none
  | .timer => state.timerStep .timer
  | .stop =>
      if (∀ id, (state.timer.devices id).fsh = true) ∧ state.timer.timerStop = false then
        state.timerStep .stop
      else none

end TimedOs

theorem Device.card (numCpus : Nat) : Fintype.card (Device numCpus) = numCpus + 1 := by
  rw [← Fintype.card_congr (Device.equivOption numCpus), Fintype.card_option, Fintype.card_fin]

theorem Device.position_injective {numCpus : Nat} :
    Function.Injective (@Device.position numCpus) := by
  intro device other hposition
  cases device with
  | cpu id =>
      cases other with
      | cpu other => exact congrArg _ (Fin.castSucc_injective _ (Fin.rev_injective hposition))
      | loader => exact absurd (Fin.rev_injective hposition) (Fin.castSucc_lt_last id).ne
  | loader =>
      cases other with
      | cpu other => exact absurd (Fin.rev_injective hposition) (Fin.castSucc_lt_last other).ne'
      | loader => rfl

/-- Every entry of `dev_list` belongs to a thread. -/
theorem Device.position_surjective {numCpus : Nat} :
    Function.Surjective (@Device.position numCpus) :=
  ((Fintype.bijective_iff_injective_and_card _).mpr
    ⟨Device.position_injective, by rw [Device.card, Fintype.card_fin]⟩).2

end SimpleOs
