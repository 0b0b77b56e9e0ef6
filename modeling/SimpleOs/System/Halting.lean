import SimpleOs.System.Pace
import SimpleOs.System.Progress

/-! # When the simulator ends

Once the work is over, a CPU on its way out needs at most one more slot, and then the timer
ends too, since it finds every thread detached. A CPU that is idle at the top of its loop never
leaves it, and it keeps the timer going as well.
-/

namespace SimpleOs

/-- The slots that the timer still begins when all threads have left their loops. -/
def TimerLocation.slotsLeft : TimerLocation → Nat
  | loop => 1
  | scan _ fsh event => if fsh = event then 1 else 2
  | tick fsh event => if fsh = event then 1 else 2
  | release _ fsh event => if fsh = event then 0 else 1
  | stopped => 0

theorem TimerLocation.slotsLeft_le (location : TimerLocation) : location.slotsLeft ≤ 2 := by
  cases location <;> simp only [slotsLeft] <;> first | omega | split <;> omega

/-- Where no device is done, the timer passes only the detached ones, and its counters agree. -/
theorem Timer.slotsLeft_advance {numDevices : Nat} {timer next : Timer numDevices}
    (hdone : ∀ id, (timer.devices id).done = false) (hadvance : timer.advance = some next) :
    next.ticks + next.location.slotsLeft ≤ timer.ticks + timer.location.slotsLeft := by
  obtain ⟨location, time, ticks, timerStop, devices⟩ := timer
  unfold advance at hadvance
  cases location with
  | loop =>
      cases hadvance
      cases timerStop <;> simp [TimerLocation.slotsLeft]
  | scan position fsh event =>
      simp only at hadvance hdone
      split at hadvance
      next hposition =>
        split at hadvance
        next hseen =>
          cases hadvance
          rw [hdone, Bool.false_or] at hseen
          simp only [TimerLocation.slotsLeft, hseen, if_true, Nat.succ.injEq]
          exact Nat.le_refl _
        next => cases hadvance
      next =>
        cases hadvance
        exact Nat.le_refl _
  | tick fsh event =>
      cases hadvance
      simp only [TimerLocation.slotsLeft]
      split <;> omega
  | release position fsh event =>
      simp only at hadvance
      split at hadvance
      next =>
        cases hadvance
        exact Nat.le_refl _
      next =>
        cases hadvance
        by_cases heq : fsh = event <;> simp [TimerLocation.slotsLeft, heq]
  | stopped => cases hadvance

/-- The calls of `next_slot` that a CPU on its way out has left. -/
def Cpu.callsLeft : Cpu → Nat
  | recheck (some _) _ => 1
  | _ => 0

namespace TimedOs

variable {config : TimedConfig} {state next : TimedOs config.numCpus}

/-- No run from here is longer than the bound, and none gets stuck before the simulator has
ended. -/
structure HaltsWithin (state : TimedOs config.numCpus) (bound : Nat) : Prop where
  length_le : ∀ events final, Runs.run (step config) state events = some final →
    events.length ≤ bound
  goes_on : ∀ events final, Runs.run (step config) state events = some final →
    final.CanStep ∨ final.Over

/-- The work is over, in a state that fits together. -/
structure Closed (state : TimedOs config.numCpus) : Prop where
  steady : state.Steady
  closing : state.os.Closing
  workOver : state.os.WorkOver

/-- A step after the work leaves the threads and their slots alone, or is one of a CPU. -/
theorem Closed.os_cases (hclosed : state.Closed) (hmove : state.Move next) :
    (next.os = state.os ∧ ∀ device, next.slotOf device = state.slotOf device) ∨
      ∃ id os, state.Free (.cpu id) ∧ state.os.cpus id ≠ .stopped ∧
        next = state.afterCpu id os ∧ os.Closing ∧ os.WorkOver ∧
        os.cpus = Function.update state.os.cpus id
          (Os.windDown config.timeSlot (state.os.cpus id)) := by
  cases hclosed.steady.coupled.act hmove with
  | cpu hfree hstep =>
      obtain ⟨hclosing, hover, leftover, id, hevent, hrunning, hcpus⟩ :=
        hclosed.workOver.step_cases hclosed.closing hstep
      cases hevent
      exact Or.inr ⟨_, _, hfree, hrunning, rfl, hclosing, hover, hcpus⟩
  | loader hfree htime hadds hstep =>
      obtain ⟨-, -, leftover, id, hevent, -⟩ := hclosed.workOver.step_cases hclosed.closing hstep
      cases hevent
  | adds hfree hadds hstep =>
      obtain ⟨-, -, leftover, id, hevent, -⟩ := hclosed.workOver.step_cases hclosed.closing hstep
      cases hevent
  | hold hfree hearly =>
      have hload := (early_iff.mp hearly).1
      rw [hclosed.closing.done_stopped hclosed.workOver.done] at hload
      cases hload
  | clock hos hturns harrivals hslots hticks => exact Or.inl ⟨hos, hslots⟩

/-- The threads move the timer neither on nor back. -/
theorem Move.timer_cases (hmove : state.Move next) :
    (next.timer.location = state.timer.location ∧ next.timer.ticks = state.timer.ticks) ∨
      state.timer.advance = some next.timer := by
  cases hmove with
  | timer hadvance => exact Or.inr hadvance
  | _ => exact Or.inl ⟨rfl, rfl⟩

theorem Closed.move (hclosed : state.Closed) (hmove : state.Move next) : next.Closed := by
  have hsteady := hclosed.steady.move hmove
  rcases hclosed.os_cases hmove with ⟨hos, -⟩ | ⟨id, os, -, -, rfl, hclosing, hover, -⟩
  · exact { steady := hsteady, closing := hos ▸ hclosed.closing, workOver := hos ▸ hclosed.workOver }
  · exact { steady := hsteady, closing := hclosing, workOver := hover }

/-- After the work nothing stands still before the simulator has ended. -/
theorem Closed.canStep (hclosed : state.Closed) : state.CanStep ∨ state.Over := by
  have hcpu : ∀ id, state.Free (.cpu id) → state.os.cpus id ≠ .stopped →
      (∃ leftover os, state.os.step config.toConfig (.cpu leftover id) = some os) ∨ False :=
    fun id _ hrunning => by
      obtain ⟨os, hos, -, -⟩ := hclosed.workOver.step hclosed.closing hrunning .zero
      exact Or.inl ⟨.zero, os, hos⟩
  have hloader : state.os.loader.location ≠ .stopped →
      ∃ garbage os, state.os.step config.toConfig (.loader garbage) = some os := fun hrunning =>
    absurd (hclosed.closing.done_stopped hclosed.workOver.done) hrunning
  exact (hclosed.steady.canStep hcpu hloader).imp_right fun hrest => hrest.resolve_right id

/-! ## CPUs on their way out -/

/-- Every CPU is on its way out, and the slots are bounded. -/
structure Leaving (bound : Nat) (state : TimedOs config.numCpus) : Prop where
  closed : state.Closed
  not_idle : ∀ id, ¬ Os.Idle (state.os.cpus id)
  slot_le : ∀ id, state.os.cpus id ≠ .stopped →
    state.slotOf (.cpu id) + (state.os.cpus id).callsLeft ≤ bound
  running_le : (∃ id, state.os.cpus id ≠ .stopped) → state.timer.ticks ≤ bound
  ticks_le : state.timer.ticks + state.timer.location.slotsLeft ≤ bound + 2

theorem callsLeft_of_atHead {cpu : Cpu} (hhead : cpu.atHead = true) : cpu.callsLeft = 0 := by
  cases cpu with
  | top proc timeLeft => rfl
  | _ => cases hhead

/-- A call of `next_slot` is one less to make. -/
theorem callsLeft_windDown (timeSlot : Int) (cpu : Cpu) (hidle : ¬ Os.Idle cpu) :
    (if (Os.windDown timeSlot cpu).atHead = true then 1 else 0) +
      (Os.windDown timeSlot cpu).callsLeft ≤ cpu.callsLeft := by
  cases cpu with
  | top proc timeLeft =>
      cases proc with
      | none => exact absurd ⟨timeLeft, rfl⟩ hidle
      | some proc => exact Nat.le_refl _
  | putReady proc timeLeft => exact Nat.le_refl _
  | afterPut timeLeft => exact Nat.le_refl _
  | afterFree => exact Nat.le_refl _
  | recheck proc timeLeft => cases proc <;> exact Nat.le_refl _
  | stopped => exact Nat.le_refl _

theorem Closed.leaving (hclosed : state.Closed)
    (hidle : ∀ id, ¬ Os.Idle (state.os.cpus id)) : state.Leaving (state.timer.ticks + 1) where
  closed := hclosed
  not_idle := hidle
  slot_le id hrunning := by
    have hcoupled := hclosed.steady.coupled
    by_cases hhead : (state.os.cpus id).atHead = true
    · rw [callsLeft_of_atHead hhead]
      exact hcoupled.slotOf_le _
    · have hfree : state.Free (.cpu id) := by
        by_contra hpaused
        exact hhead (hcoupled.cpu_paused id hpaused)
      have hcalls : (state.os.cpus id).callsLeft ≤ 1 := by
        unfold Cpu.callsLeft
        split <;> omega
      exact Nat.add_le_add (hcoupled.slotOf_le_of_free hfree) hcalls
  running_le _ := Nat.le_succ _
  ticks_le := by
    have hle := state.timer.location.slotsLeft_le
    omega

/-- When all CPUs have stopped, no device is done. -/
theorem Closed.not_done (hclosed : state.Closed) (hstopped : ∀ id, state.os.cpus id = .stopped)
    (position : Fin (config.numCpus + 1)) : (state.timer.devices position).done = false := by
  have hcoupled := hclosed.steady.coupled
  obtain ⟨device, rfl⟩ := Device.position_surjective position
  have hfree : state.Free device := by
    by_contra hpaused
    cases device with
    | cpu id =>
        have hhead := hcoupled.cpu_paused id hpaused
        rw [hstopped id] at hhead
        cases hhead
    | loader =>
        have hload := hcoupled.loader_paused hpaused
        rw [hclosed.closing.done_stopped hclosed.workOver.done] at hload
        cases hload
  exact (hcoupled.sync.devices device.position).idle hfree.1

/-- The time advances only when every CPU that has not stopped is about to enter the next slot,
or when the timer is about to end. -/
theorem Leaving.ticks_advance {bound : Nat} (hleaving : state.Leaving bound)
    {timer : Timer (config.numCpus + 1)} (hadvance : state.timer.advance = some timer) :
    ((∃ id, state.os.cpus id ≠ .stopped) → timer.ticks ≤ bound) ∧
      timer.ticks + timer.location.slotsLeft ≤ bound + 2 := by
  have hcoupled := hleaving.closed.steady.coupled
  by_cases hrunning : ∃ id, state.os.cpus id ≠ .stopped
  · have hticks : timer.ticks ≤ bound := by
      rcases Timer.ticks_advance hadvance with hsame | ⟨⟨fsh, event, hlocation⟩, hlater⟩
      · exact hsame ▸ hleaving.running_le hrunning
      · obtain ⟨id, hid⟩ := hrunning
        have hslot := hcoupled.slotOf_of_tick hlocation (exited_cpu_of_ne hid)
        have hle := hleaving.slot_le id hid
        omega
    exact ⟨fun _ => hticks, Nat.add_le_add hticks timer.location.slotsLeft_le⟩
  · have hstopped : ∀ id, state.os.cpus id = .stopped := fun id => by
      by_contra hid
      exact hrunning ⟨id, hid⟩
    have hdown := Timer.slotsLeft_advance (hleaving.closed.not_done hstopped) hadvance
    exact ⟨fun hsome => absurd hsome hrunning, hdown.trans hleaving.ticks_le⟩

theorem Leaving.clock {bound : Nat} (hleaving : state.Leaving bound) (hmove : state.Move next)
    (hclosed : next.Closed) (hos : next.os = state.os)
    (hslots : ∀ device, next.slotOf device = state.slotOf device) : next.Leaving bound where
  closed := hclosed
  not_idle := hos ▸ hleaving.not_idle
  slot_le id hrunning := by
    rw [hos] at hrunning ⊢
    rw [hslots]
    exact hleaving.slot_le id hrunning
  running_le hrunning := by
    rw [hos] at hrunning
    rcases hmove.timer_cases with ⟨-, hticks⟩ | hadvance
    · rw [hticks]
      exact hleaving.running_le hrunning
    · exact (hleaving.ticks_advance hadvance).1 hrunning
  ticks_le := by
    rcases hmove.timer_cases with ⟨hlocation, hticks⟩ | hadvance
    · rw [hlocation, hticks]
      exact hleaving.ticks_le
    · exact (hleaving.ticks_advance hadvance).2

theorem Leaving.cpu_step {bound : Nat} (hleaving : state.Leaving bound)
    {id : Fin config.numCpus} {os : Os config.numCpus} (hclosed : (state.afterCpu id os).Closed)
    (hfree : state.Free (.cpu id)) (hrunning : state.os.cpus id ≠ .stopped)
    (hcpus : os.cpus = Function.update state.os.cpus id
      (Os.windDown config.timeSlot (state.os.cpus id))) :
    (state.afterCpu id os).Leaving bound where
  closed := hclosed
  not_idle other := by
    change ¬ Os.Idle (os.cpus other)
    rw [hcpus]
    by_cases hother : other = id
    · subst hother
      rw [Function.update_self]
      exact Os.not_idle_windDown (hleaving.not_idle other)
    · rw [Function.update_of_ne hother]
      exact hleaving.not_idle other
  slot_le other hother := by
    change (state.afterCpu id os).slotOf (.cpu other) + (os.cpus other).callsLeft ≤ bound
    by_cases hsame : other = id
    · subst hsame
      have hcpu : os.cpus other = Os.windDown config.timeSlot (state.os.cpus other) := by
        rw [hcpus, Function.update_self]
      have hslot := hleaving.slot_le other hrunning
      have hcalls := callsLeft_windDown config.timeSlot _ (hleaving.not_idle other)
      rw [slotOf_afterCpu_self hfree, hcpu]
      omega
    · have hcpu : os.cpus other = state.os.cpus other := by
        rw [hcpus, Function.update_of_ne hsame]
      have hkept : state.os.cpus other ≠ .stopped := hcpu ▸ hother
      rw [slotOf_afterCpu_of_ne fun heq => hsame (Device.cpu.inj heq), hcpu]
      exact hleaving.slot_le other hkept
  running_le _ := hleaving.running_le ⟨id, hrunning⟩
  ticks_le := hleaving.ticks_le

theorem Leaving.move {bound : Nat} (hleaving : state.Leaving bound) (hmove : state.Move next) :
    next.Leaving bound := by
  have hclosed := hleaving.closed.move hmove
  rcases hleaving.closed.os_cases hmove with
    ⟨hos, hslots⟩ | ⟨id, os, hfree, hrunning, rfl, -, -, hcpus⟩
  · exact hleaving.clock hmove hclosed hos hslots
  · exact hleaving.cpu_step hclosed hfree hrunning hcpus

theorem Leaving.run {bound : Nat} {final : TimedOs config.numCpus}
    {events : List (TimedEvent config.numCpus)} (hleaving : state.Leaving bound)
    (hrun : Runs.run (step config) state events = some final) : final.Leaving bound :=
  Runs.run_invariant (Leaving bound) (fun _ => True)
    (fun _ _ _ _ hleaving hstep => hleaving.move (move_of_step hstep)) (fun _ _ => trivial)
    hleaving hrun

/-- Without an idle CPU three more slots are enough. -/
theorem Closed.haltsWithin (hclosed : state.Closed)
    (hidle : ∀ id, ¬ Os.Idle (state.os.cpus id)) :
    state.HaltsWithin (state.rank + price config.numCpus * 3) where
  length_le events final hrun := by
    have hleaving := (hclosed.leaving hidle).run hrun
    have hlength := (paid config).length_add_le hclosed.steady.coupled hrun
    have hticks : final.timer.ticks ≤ state.timer.ticks + 3 :=
      (Nat.le_add_right _ _).trans hleaving.ticks_le
    have hcost := Nat.mul_le_mul_left (price config.numCpus) hticks
    rw [Nat.mul_add] at hcost
    omega
  goes_on events final hrun := ((hclosed.leaving hidle).run hrun).closed.canStep

/-! ## An idle CPU -/

theorem Closed.idle_move {id : Fin config.numCpus} (hclosed : state.Closed)
    (hidle : Os.Idle (state.os.cpus id)) (hmove : state.Move next) :
    Os.Idle (next.os.cpus id) := by
  rcases hclosed.os_cases hmove with ⟨hos, -⟩ | ⟨other, os, -, -, rfl, -, -, hcpus⟩
  · rwa [hos]
  · change Os.Idle (os.cpus id)
    rw [hcpus]
    by_cases hsame : id = other
    · subst hsame
      obtain ⟨timeLeft, hcpu⟩ := hidle
      rw [Function.update_self, hcpu]
      exact ⟨timeLeft, rfl⟩
    · rwa [Function.update_of_ne hsame]

/-- With an idle CPU there are runs of any length. -/
theorem Closed.exists_run {id : Fin config.numCpus} (hclosed : state.Closed)
    (hidle : Os.Idle (state.os.cpus id)) (length : Nat) :
    ∃ events final, events.length = length ∧
      Runs.run (step config) state events = some final := by
  refine @Ranking.exists_run_of_length _ _ (step config)
    (fun other => other.Closed ∧ Os.Idle (other.os.cpus id)) ?_ ?_ state ⟨hclosed, hidle⟩ length
  · rintro other event next ⟨hother, hstays⟩ hstep
    have hmove := move_of_step hstep
    exact ⟨hother.move hmove, hother.idle_move hstays hmove⟩
  · rintro other ⟨hother, timeLeft, hstays⟩
    refine hother.canStep.resolve_right fun hover => ?_
    have hexited := exited_cpu_iff.mp (hover.exited (.cpu id))
    rw [hstays] at hexited
    cases hexited

theorem closed_of_visited (mm : MmStruct) (mram activeMswp : MemphyStruct)
    (events : List (TimedEvent config.numCpus)) {state : TimedOs config.numCpus}
    (hvisited : state ∈ Runs.visited (step config) (start mm mram activeMswp) events)
    (hover : state.os.WorkOver) : state.Closed where
  steady := steady_of_visited mm mram activeMswp events state hvisited
  closing := by
    obtain ⟨done, -, hrun⟩ := Runs.mem_visited_iff.mp hvisited
    obtain ⟨osEvents, hos⟩ := os_run_of_run hrun
    exact Runs.run_invariant Os.Closing (fun _ => True)
      (fun _ _ _ _ hclosing hstep => hclosing.move (Os.move_of_step hstep)) (fun _ _ => trivial)
      (Os.closing_start mm mram activeMswp) hos
  workOver := hover

/-- Once the work is over, the simulator ends, in a bounded number of steps and whatever their
order, exactly when no CPU is idle at the top of its loop. -/
theorem visited_halts_iff_not_idle (config : TimedConfig) (mm : MmStruct)
    (mram activeMswp : MemphyStruct) (events : List (TimedEvent config.numCpus))
    (state : TimedOs config.numCpus)
    (hvisited : state ∈ Runs.visited (step config) (start mm mram activeMswp) events)
    (hover : state.os.WorkOver) :
    (∃ bound, state.HaltsWithin bound) ↔ ∀ id, ¬ Os.Idle (state.os.cpus id) := by
  have hclosed := closed_of_visited mm mram activeMswp events hvisited hover
  constructor
  · rintro ⟨bound, hhalts⟩ id hidle
    obtain ⟨later, final, hlength, hrun⟩ := hclosed.exists_run hidle (bound + 1)
    exact absurd (hhalts.length_le later final hrun) (hlength ▸ Nat.not_succ_le_self bound)
  · exact fun hidle => ⟨_, hclosed.haltsWithin hidle⟩

/-- The CPU of the example freed the process before `done` was set. It is idle, and nothing ends
the simulator. -/
theorem visited_halts_iff_not_idle_one_job :
    ∃ state, Runs.run (step oneJob)
        (start (initMm .null) singleProcess.mram singleProcess.activeMswp) (endlessEvents 0) =
          some state ∧
      Os.Idle (state.os.cpus ⟨0, by decide⟩) ∧ ¬ ∃ bound, state.HaltsWithin bound := by
  have hfinal : (Runs.run (step oneJob)
      (start (initMm .null) singleProcess.mram singleProcess.activeMswp) (endlessEvents 0)).map
        (fun state => (state.os.cpus ⟨0, by decide⟩, state.os.done,
          decide (∀ level, state.os.sched.ready level = []))) = some (.top none 0, true, true) := by
    decide +kernel
  obtain ⟨state, hrun, hstate⟩ := Option.map_eq_some_iff.mp hfinal
  simp only [Prod.mk.injEq, decide_eq_true_eq] at hstate
  obtain ⟨hcpu, hdone, hready⟩ := hstate
  have hover : state.os.WorkOver :=
    { done := hdone
      ready_empty := hready
      finished := fun id proc hheld => by
        rw [show id = ⟨0, by decide⟩ from Fin.ext (Nat.lt_one_iff.mp id.isLt), hcpu] at hheld
        cases hheld }
  refine ⟨state, hrun, ⟨0, hcpu⟩, fun hhalts => ?_⟩
  exact (visited_halts_iff_not_idle oneJob _ _ _ _ state
    (Runs.mem_visited_iff.mpr ⟨_, List.prefix_rfl, hrun⟩) hover).mp hhalts _ ⟨0, hcpu⟩

end TimedOs

end SimpleOs
