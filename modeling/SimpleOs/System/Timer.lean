import Mathlib.Logic.Function.Basic
import SimpleOs.Foundation.Runs
import SimpleOs.Machine.Basic

/-! # The timer

`timer.c` makes its devices work slot by slot. In each slot the timer waits for every
device in turn to be done or detached, advances the time, and then releases the devices
one after the other, so a device can be in its next slot while the timer still releases
others. Each step below is one section under a lock, of the timer or of a device.
-/

namespace SimpleOs

/-- Whether the thread of a device is at work in its slot or inside `next_slot`. -/
inductive DevicePhase where
  | working
  | waiting
  deriving DecidableEq, Repr

/-- `struct timer_id_t`, without its locks, with the phase of the device and the number of
its `next_slot` calls that have returned. -/
structure TimerId where
  done : Bool
  fsh : Bool
  phase : DevicePhase
  completed : Nat

/-- The position of `timer_routine`, with the local variables `fsh` and `event`. -/
inductive TimerLocation where
  | loop
  | scan (position fsh event : Nat)
  | tick (fsh event : Nat)
  | release (position fsh event : Nat)
  | stopped
  deriving DecidableEq, Repr

/-- The timer with its list of devices. `ticks` counts the increments of `_time`. -/
structure Timer (numDevices : Nat) where
  location : TimerLocation
  time : BitVec 64
  ticks : Nat
  timerStop : Bool
  devices : Fin numDevices → TimerId

/-- The steps of the timer thread and of the devices, and the request to stop. -/
inductive TimerEvent (numDevices : Nat) where
  | timer
  | enter (id : Fin numDevices)
  | leave (id : Fin numDevices)
  | detach (id : Fin numDevices)
  | stop
  deriving DecidableEq

namespace Timer

variable {numDevices : Nat}

/-- All devices are attached when the timer starts. -/
def start (numDevices : Nat) : Timer numDevices where
  location := .loop
  time := 0
  ticks := 0
  timerStop := false
  devices _ := { done := false, fsh := false, phase := .working, completed := 0 }

def setDevice (timer : Timer numDevices) (id : Fin numDevices) (device : TimerId) :
    Timer numDevices :=
  { timer with devices := Function.update timer.devices id device }

/-- One step of `timer_routine`. It waits at a device that is neither done nor detached. -/
def advance (timer : Timer numDevices) : Option (Timer numDevices) :=
  match timer.location with
  | .loop =>
      some { timer with location := if timer.timerStop then .stopped else .scan 0 0 0 }
  | .scan position fsh event =>
      if h : position < numDevices then
        let device := timer.devices ⟨position, h⟩
        if device.done || device.fsh then
          some { timer with
            location := .scan (position + 1) (if device.fsh then fsh + 1 else fsh) (event + 1) }
        else none
      else some { timer with location := .tick fsh event }
  | .tick fsh event =>
      some { timer with
        location := .release 0 fsh event
        time := timer.time + 1
        ticks := timer.ticks + 1 }
  | .release position fsh event =>
      if h : position < numDevices then
        some { timer.setDevice ⟨position, h⟩
            { timer.devices ⟨position, h⟩ with done := false } with
          location := .release (position + 1) fsh event }
      else some { timer with location := if fsh = event then .stopped else .loop }
  | .stopped => none

/-- One step of the timer or of a device. `next_slot` sets `done` as it begins and returns
when it sees `done` cleared. -/
def step (timer : Timer numDevices) : TimerEvent numDevices → Option (Timer numDevices)
  | .timer => timer.advance
  | .enter id =>
      let device := timer.devices id
      if device.phase = .working then
        some (timer.setDevice id { device with done := true, phase := .waiting })
      else none
  | .leave id =>
      let device := timer.devices id
      if device.phase = .waiting ∧ device.done = false then
        some (timer.setDevice id
          { device with phase := .working, completed := device.completed + 1 })
      else none
  | .detach id => some (timer.setDevice id { timer.devices id with fsh := true })
  | .stop => some { timer with timerStop := true }

end Timer

/-! ## One device -/

/-- The device is inside `next_slot`, with `done` set for the current slot. -/
def TimerId.Blocked (device : TimerId) : Prop := device.phase = .waiting ∧ device.done = true

namespace TimerLocation

/-- The timer has seen the device in this slot, and has not released it yet. -/
def Passed : TimerLocation → Nat → Prop
  | scan position _ _, index => index < position
  | tick _ _, _ => True
  | release position _ _, index => position ≤ index
  | _, _ => False

/-- The time is advanced, and the device is not released yet. -/
def Pending : TimerLocation → Nat → Prop
  | release position _ _, index => position ≤ index
  | _, _ => False

instance (location : TimerLocation) (index : Nat) : Decidable (location.Pending index) := by
  cases location <;> unfold Pending <;> infer_instance

end TimerLocation

/-- The returns from `next_slot` that the device has not made yet for the time advanced so
far: one while it is to be released, and one while it is released and has not left. -/
def TimerId.owed (device : TimerId) (location : TimerLocation) (index : Nat) : Nat :=
  (if location.Pending index then 1 else 0) +
    if device.phase = .waiting ∧ device.done = false then 1 else 0

theorem TimerId.owed_enter {device : TimerId} {location : TimerLocation} {index : Nat}
    (hworking : device.phase = .working) :
    TimerId.owed { device with done := true, phase := .waiting } location index =
      device.owed location index := by
  unfold TimerId.owed
  simp [hworking]

/-- A return from `next_slot` pays a debt. -/
theorem TimerId.owed_leave {device : TimerId} (location : TimerLocation) (index : Nat)
    (hreleased : device.phase = .waiting ∧ device.done = false) :
    TimerId.owed { device with phase := .working, completed := device.completed + 1 } location
      index + 1 = device.owed location index := by
  unfold TimerId.owed
  simp [hreleased]

/-- A blocked device owes nothing but the release. -/
theorem TimerId.owed_of_blocked {device : TimerId} (hblocked : device.Blocked)
    (location : TimerLocation) (index : Nat) :
    device.owed location index = if location.Pending index then 1 else 0 := by
  have hdone : ¬ (device.phase = .waiting ∧ device.done = false) := fun hleft =>
    absurd (hblocked.2.symm.trans hleft.2) (by decide)
  unfold TimerId.owed
  simp only [if_neg hdone, Nat.add_zero]

/-- What holds of a device at any time. The account is exact until the device detaches, and
a device that the timer has passed stays blocked until it is released. -/
structure InStep (location : TimerLocation) (ticks index : Nat) (device : TimerId) : Prop where
  idle : device.phase = .working → device.done = false
  account : device.completed + device.owed location index ≤ ticks
  attached_account : device.fsh = false → device.completed + device.owed location index = ticks
  attached_blocked : device.fsh = false → location.Passed index → device.Blocked

namespace InStep

variable {location next : TimerLocation} {ticks index : Nat} {device : TimerId}

theorem enter (hin : InStep location ticks index device) (hworking : device.phase = .working) :
    InStep location ticks index { device with done := true, phase := .waiting } where
  idle := nofun
  account := by
    rw [TimerId.owed_enter hworking]
    exact hin.account
  attached_account hattached := by
    rw [TimerId.owed_enter hworking]
    exact hin.attached_account hattached
  attached_blocked _ _ := ⟨rfl, rfl⟩

theorem leave (hin : InStep location ticks index device)
    (hreleased : device.phase = .waiting ∧ device.done = false) :
    InStep location ticks index
      { device with phase := .working, completed := device.completed + 1 } where
  idle _ := hreleased.2
  account := by
    have howed := TimerId.owed_leave location index hreleased
    have haccount := hin.account
    simp only
    omega
  attached_account hattached := by
    have howed := TimerId.owed_leave location index hreleased
    have haccount := hin.attached_account hattached
    simp only
    omega
  attached_blocked hattached hpassed := by
    have hblocked := hin.attached_blocked hattached hpassed
    exact absurd (hreleased.2.symm.trans hblocked.2) (by decide)

theorem detach (hin : InStep location ticks index device) :
    InStep location ticks index { device with fsh := true } where
  idle := hin.idle
  account := hin.account
  attached_account := nofun
  attached_blocked := nofun

/-- The release of the device turns one debt into the other. A device that was not waiting
loses the debt. -/
theorem release {fsh event : Nat} (hin : InStep (.release index fsh event) ticks index device) :
    InStep (.release (index + 1) fsh event) ticks index { device with done := false } := by
  have hpassed : (TimerLocation.release index fsh event).Passed index := Nat.le_refl index
  have hpending : (TimerLocation.release index fsh event).Pending index := Nat.le_refl index
  have hreleased : ¬ (TimerLocation.release (index + 1) fsh event).Pending index :=
    Nat.not_succ_le_self index
  refine
    { idle := fun _ => rfl, account := ?_, attached_account := fun hattached => ?_
      attached_blocked := fun _ hlater => absurd hlater (Nat.not_succ_le_self index) }
  · have haccount := hin.account
    unfold TimerId.owed at haccount ⊢
    rw [if_pos hpending] at haccount
    rw [if_neg hreleased]
    simp only
    split <;> omega
  · have hblocked := hin.attached_blocked hattached hpassed
    have haccount := hin.attached_account hattached
    rw [TimerId.owed_of_blocked hblocked, if_pos hpending] at haccount
    unfold TimerId.owed
    rw [if_neg hreleased, if_pos ⟨hblocked.1, rfl⟩]
    exact haccount

/-- The time advances when the timer has passed every device. -/
theorem tick {fsh event : Nat} (hin : InStep (.tick fsh event) ticks index device) :
    InStep (.release 0 fsh event) (ticks + 1) index device := by
  have hnow : ¬ (TimerLocation.tick fsh event).Pending index := id
  have hnext : (TimerLocation.release 0 fsh event).Pending index := Nat.zero_le index
  refine
    { idle := hin.idle, account := ?_, attached_account := fun hattached => ?_
      attached_blocked := fun hattached _ => hin.attached_blocked hattached trivial }
  · have haccount := hin.account
    unfold TimerId.owed at haccount ⊢
    rw [if_neg hnow] at haccount
    rw [if_pos hnext]
    omega
  · have haccount := hin.attached_account hattached
    unfold TimerId.owed at haccount ⊢
    rw [if_neg hnow] at haccount
    rw [if_pos hnext]
    omega

/-- A move of the timer that changes no debt, and passes only devices that are blocked. -/
theorem move (hin : InStep location ticks index device)
    (hpending : next.Pending index ↔ location.Pending index)
    (hpassed : device.fsh = false → next.Passed index →
      location.Passed index ∨ device.Blocked) :
    InStep next ticks index device := by
  have howed : device.owed next index = device.owed location index := by
    unfold TimerId.owed
    simp only [hpending]
  refine
    { idle := hin.idle, account := ?_, attached_account := fun hattached => ?_
      attached_blocked := fun hattached hlater => ?_ }
  · rw [howed]
    exact hin.account
  · rw [howed]
    exact hin.attached_account hattached
  · exact (hpassed hattached hlater).elim (hin.attached_blocked hattached) id

/-- An attached device owes at most one return, and nothing while it is at work. -/
theorem owed_le (hin : InStep location ticks index device) (hattached : device.fsh = false) :
    device.owed location index ≤ 1 ∧
      (device.phase = .working → device.owed location index = 0) := by
  by_cases hpending : location.Pending index
  · have hpassed : location.Passed index := by
      cases location with
      | release position fsh event => exact hpending
      | loop => exact hpending.elim
      | scan position fsh event => exact hpending.elim
      | tick fsh event => exact hpending.elim
      | stopped => exact hpending.elim
    have hblocked := hin.attached_blocked hattached hpassed
    rw [TimerId.owed_of_blocked hblocked, if_pos hpending]
    exact ⟨Nat.le_refl 1, fun hworking => absurd (hblocked.1.symm.trans hworking) (by decide)⟩
  · unfold TimerId.owed
    rw [if_neg hpending, Nat.zero_add]
    constructor
    · split <;> omega
    · intro hworking
      rw [hworking]
      rfl

end InStep

/-! ## All devices -/

namespace Timer

variable {numDevices : Nat} {timer next : Timer numDevices} {event : TimerEvent numDevices}

/-- All devices are in step with the timer, and `_time` counts the ticks. -/
structure Synchronous (timer : Timer numDevices) : Prop where
  time_eq : timer.time = BitVec.ofNat 64 timer.ticks
  devices : ∀ id, InStep timer.location timer.ticks id.val (timer.devices id)

theorem synchronous_start : (start numDevices).Synchronous where
  time_eq := rfl
  devices _ :=
    { idle := fun _ => rfl
      account := Nat.le_refl 0
      attached_account := fun _ => rfl
      attached_blocked := fun _ hpassed => hpassed.elim }

/-- A step of one device leaves the timer and the other devices alone. -/
theorem Synchronous.setDevice (hsync : timer.Synchronous) {id : Fin numDevices}
    {device : TimerId} (hdevice : InStep timer.location timer.ticks id.val device) :
    (timer.setDevice id device).Synchronous where
  time_eq := hsync.time_eq
  devices other := by
    change InStep timer.location timer.ticks other.val
      (Function.update timer.devices id device other)
    by_cases hother : other = id
    · subst hother
      rwa [Function.update_self]
    · rw [Function.update_of_ne hother]
      exact hsync.devices other

theorem Synchronous.advance (hsync : timer.Synchronous) (hstep : timer.advance = some next) :
    next.Synchronous := by
  obtain ⟨location, time, ticks, timerStop, devices⟩ := timer
  have hin := hsync.devices
  simp only at hin
  unfold Timer.advance at hstep
  cases location with
  | loop =>
      cases hstep
      refine { time_eq := hsync.time_eq, devices := fun id => (hin id).move ?_ ?_ }
      · cases timerStop <;> exact Iff.rfl
      · cases timerStop with
        | false => exact fun _ hpassed => absurd hpassed (Nat.not_lt_zero _)
        | true => exact fun _ hpassed => hpassed.elim
  | scan position fsh event =>
      simp only at hstep
      split at hstep
      next hposition =>
        split at hstep
        next hseen =>
          cases hstep
          refine { time_eq := hsync.time_eq, devices := fun id => (hin id).move Iff.rfl ?_ }
          intro hattached hpassed
          rcases Nat.lt_or_eq_of_le (Nat.lt_succ_iff.mp hpassed) with hlt | heq
          · exact Or.inl hlt
          -- the device that is passed now has announced itself, so it is not at work
          · obtain rfl : id = ⟨position, hposition⟩ := Fin.ext heq
            rw [hattached, Bool.or_false] at hseen
            refine Or.inr ⟨?_, hseen⟩
            cases hphase : (devices ⟨position, hposition⟩).phase with
            | waiting => rfl
            | working => rw [(hin _).idle hphase] at hseen; cases hseen
        next => cases hstep
      next hend =>
        cases hstep
        refine { time_eq := hsync.time_eq, devices := fun id => (hin id).move Iff.rfl ?_ }
        exact fun _ _ => Or.inl (id.isLt.trans_le (Nat.not_lt.mp hend))
  | tick fsh event =>
      cases hstep
      refine { time_eq := ?_, devices := fun id => (hin id).tick }
      rw [hsync.time_eq]
      exact (BitVec.ofNat_add _ _).symm
  | release position fsh event =>
      simp only at hstep
      split at hstep
      next hposition =>
        cases hstep
        refine { time_eq := hsync.time_eq, devices := fun id => ?_ }
        by_cases hid : id = ⟨position, hposition⟩
        · subst hid
          change InStep _ _ _ (Function.update devices ⟨position, hposition⟩ _ _)
          rw [Function.update_self]
          exact (hin ⟨position, hposition⟩).release
        · change InStep _ _ _ (Function.update devices ⟨position, hposition⟩ _ _)
          rw [Function.update_of_ne hid]
          have hne : id.val ≠ position := fun heq => hid (Fin.ext heq)
          have hsame : position + 1 ≤ id.val ↔ position ≤ id.val := by omega
          exact (hin id).move hsame fun _ hpassed => Or.inl (hsame.mp hpassed)
      next hend =>
        cases hstep
        have hreleased : ∀ id : Fin numDevices, ¬ position ≤ id.val := fun id => by
          have hlt := id.isLt
          omega
        refine { time_eq := hsync.time_eq, devices := fun id => (hin id).move ?_ ?_ }
        · refine iff_of_false ?_ (hreleased id)
          split <;> exact fun hpending => hpending
        · split <;> exact fun _ hpassed => hpassed.elim
  | stopped => cases hstep

theorem Synchronous.step (hsync : timer.Synchronous) (hstep : timer.step event = some next) :
    next.Synchronous := by
  cases event with
  | timer => exact hsync.advance hstep
  | enter id =>
      simp only [Timer.step] at hstep
      split at hstep
      next hworking =>
        cases hstep
        exact hsync.setDevice ((hsync.devices id).enter hworking)
      next => cases hstep
  | leave id =>
      simp only [Timer.step] at hstep
      split at hstep
      next hreleased =>
        cases hstep
        exact hsync.setDevice ((hsync.devices id).leave hreleased)
      next => cases hstep
  | detach id =>
      cases hstep
      exact hsync.setDevice (hsync.devices id).detach
  | stop =>
      cases hstep
      exact { time_eq := hsync.time_eq, devices := hsync.devices }

/-! ## The barrier -/

/-- The barrier of a slot. When the time is about to advance, every attached device is
blocked in its current slot. No device has returned from `next_slot` more often than the
time has advanced, an attached one at most once less, and a device at work is in no later
slot than an attached device at work. -/
structure Barrier (timer : Timer numDevices) : Prop where
  ticking : ∀ fsh event, timer.location = .tick fsh event →
    ∀ id, (timer.devices id).fsh = false →
      (timer.devices id).Blocked ∧ (timer.devices id).completed = timer.ticks
  never_ahead : ∀ id, (timer.devices id).completed ≤ timer.ticks
  one_behind : ∀ id, (timer.devices id).fsh = false →
    timer.ticks ≤ (timer.devices id).completed + 1
  same_slot : ∀ id other, (timer.devices id).phase = .working →
    (timer.devices other).phase = .working → (timer.devices other).fsh = false →
      (timer.devices id).completed ≤ (timer.devices other).completed
  time_eq : timer.time = BitVec.ofNat 64 timer.ticks

theorem Synchronous.barrier (hsync : timer.Synchronous) : timer.Barrier where
  ticking fsh event hlocation id hattached := by
    have hin := hsync.devices id
    rw [hlocation] at hin
    have hblocked := hin.attached_blocked hattached trivial
    have haccount := hin.attached_account hattached
    rw [TimerId.owed_of_blocked hblocked] at haccount
    exact ⟨hblocked, haccount⟩
  never_ahead id := Nat.le_of_add_right_le (hsync.devices id).account
  one_behind id hattached := by
    have haccount := (hsync.devices id).attached_account hattached
    have howed := ((hsync.devices id).owed_le hattached).1
    omega
  same_slot id other _ hother hattached := by
    have hahead := (hsync.devices id).account
    have haccount := (hsync.devices other).attached_account hattached
    have howed := ((hsync.devices other).owed_le hattached).2 hother
    omega
  time_eq := hsync.time_eq

/-- The barrier holds in every state of every interleaving, for any number of devices. -/
theorem barrier_of_visited (numDevices : Nat) (events : List (TimerEvent numDevices))
    (timer : Timer numDevices)
    (hvisited : timer ∈ Runs.visited Timer.step (start numDevices) events) : timer.Barrier :=
  (Runs.visited_invariant Synchronous (fun _ => True)
    (fun _ _ _ _ hsync hstep => hsync.step hstep) (fun _ _ => trivial) synchronous_start
    timer hvisited).barrier

/-- Two devices, the first of which is already in its second slot. -/
theorem barrier_of_visited_two_devices :
    ∃ timer, Runs.run Timer.step (start 2)
        [.enter 0, .enter 1, .timer, .timer, .timer, .timer, .timer, .timer, .leave 0] =
          some timer ∧ timer.Barrier ∧ (timer.devices 0).completed = 1 ∧
            (timer.devices 1).completed = 0 := by
  refine ⟨_, rfl, ?_, rfl, rfl⟩
  exact barrier_of_visited 2
    [.enter 0, .enter 1, .timer, .timer, .timer, .timer, .timer, .timer, .leave 0] _
    (Runs.mem_visited_iff.mpr ⟨_, List.prefix_rfl, rfl⟩)

end Timer

end SimpleOs
