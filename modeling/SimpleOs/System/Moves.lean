import SimpleOs.System.Os

/-! # What a step can do

Every step of a thread is one of the moves below. Invariants are proved over the moves,
which name the state they lead to.
-/

namespace SimpleOs

namespace Os

variable {config : Config}

/-- A CPU that is about to replace its process by what `get_proc` returns, with the value of
`time_left` that it goes on with. -/
inductive Fetching : Cpu → Int → Prop where
  | idle (timeLeft : Int) : Fetching (.top none timeLeft) timeLeft
  | afterPut (timeLeft : Int) : Fetching (.afterPut timeLeft) timeLeft
  | afterFree : Fetching .afterFree 0

/-- The moves of the loader and the CPUs. -/
inductive Move (os : Os config.numCpus) : OsEvent config.numCpus → Os config.numCpus → Prop where
  | load {garbage i} (hloader : os.loader = { location := .load, i := i })
      (hi : i < config.numProcesses) :
      Move os (.loader garbage) { os.setPcb i (newPcb config i) with
        mm := initMm garbage
        loader := { location := .addRunning, i := i } }
  | loaded {garbage i} (hloader : os.loader = { location := .load, i := i }) :
      Move os (.loader garbage)
        { os with loader := { location := .stopped, i := i }, done := true }
  | addRunning {garbage i} (hloader : os.loader = { location := .addRunning, i := i }) :
      Move os (.loader garbage) { os with
        sched := os.sched.enqueueRunning i
        loader := { location := .addReady, i := i } }
  | addReady {garbage i sched} (hloader : os.loader = { location := .addReady, i := i })
      (hadd : Sched.addMlqProc config.prio os.sched i = .ok sched) :
      Move os (.loader garbage)
        { os with sched := sched, loader := { location := .load, i := i + 1 } }
  | idle {leftover id timeLeft} (hcpu : os.cpus id = .top none timeLeft) :
      Move os (.cpu leftover id) os
  | get {leftover id timeLeft level usedSlot proc rest} (hcpu : Fetching (os.cpus id) timeLeft)
      (hready : os.sched.ready level = proc :: rest) :
      Move os (.cpu leftover id)
        ({ os with sched := (os.sched.dequeueAt level usedSlot).2 }.setCpu id
          (.recheck (some proc) timeLeft))
  | getNone {leftover id timeLeft} (hcpu : Fetching (os.cpus id) timeLeft) :
      Move os (.cpu leftover id) (os.setCpu id (.recheck none timeLeft))
  | finish {leftover id proc timeLeft} (hcpu : os.cpus id = .top (some proc) timeLeft)
      (halive : proc ∉ os.freed) (hend : (os.pcbs proc).pc = (os.pcbs proc).code.length) :
      Move os (.cpu leftover id)
        (({ os with freed := proc :: os.freed }.mark proc .finish).setCpu id .afterFree)
  | put {leftover id proc} (hcpu : os.cpus id = .top (some proc) 0) (halive : proc ∉ os.freed)
      (hpc : (os.pcbs proc).pc ≠ (os.pcbs proc).code.length) :
      Move os (.cpu leftover id)
        (({ os with sched := os.sched.enqueueRunning proc }.mark proc .put).setCpu id
          (.putReady proc 0))
  | pass {leftover id proc timeLeft} (hcpu : os.cpus id = .top (some proc) timeLeft)
      (halive : proc ∉ os.freed) (hpc : (os.pcbs proc).pc ≠ (os.pcbs proc).code.length)
      (htime : timeLeft ≠ 0) :
      Move os (.cpu leftover id) (os.setCpu id (.recheck (some proc) timeLeft))
  | putReady {leftover id proc timeLeft sched} (hcpu : os.cpus id = .putReady proc timeLeft)
      (hput : Sched.putMlqProc config.prio os.sched proc = .ok sched) :
      Move os (.cpu leftover id) ({ os with sched := sched }.setCpu id (.afterPut timeLeft))
  | stop {leftover id timeLeft} (hcpu : os.cpus id = .recheck none timeLeft) :
      Move os (.cpu leftover id) (os.setCpu id .stopped)
  | again {leftover id timeLeft} (hcpu : os.cpus id = .recheck none timeLeft) :
      Move os (.cpu leftover id) (os.setCpu id (.top none timeLeft))
  | runPastEnd {leftover id proc timeLeft} (hcpu : os.cpus id = .recheck (some proc) timeLeft)
      (halive : proc ∉ os.freed) (hend : (os.pcbs proc).code.length ≤ (os.pcbs proc).pc) :
      Move os (.cpu leftover id) ((os.dispatch proc timeLeft).setCpu id
        (.top (some proc) ((if timeLeft = 0 then config.timeSlot else timeLeft) - 1)))
  | run {leftover id proc timeLeft ins status krnl}
      (hcpu : os.cpus id = .recheck (some proc) timeLeft) (halive : proc ∉ os.freed)
      (hins : (os.pcbs proc).code[(os.pcbs proc).pc]? = some ins)
      (hexecute : ins.execute ((os.advance proc).readPid leftover) leftover.junk os.krnl
        (os.pcbs proc).pid = .ok (status, krnl)) :
      Move os (.cpu leftover id)
        ((((os.dispatch proc timeLeft).advance proc).setKrnl krnl).setCpu id
          (.top (some proc) ((if timeLeft = 0 then config.timeSlot else timeLeft) - 1)))

variable {os next : Os config.numCpus}

theorem pcb_eq_ok {proc : Nat} {pcb : Pcb} (hpcb : os.pcb proc = .ok pcb) :
    proc ∉ os.freed ∧ pcb = os.pcbs proc := by
  unfold Os.pcb at hpcb
  split at hpcb
  next => cases hpcb
  next halive => exact ⟨halive, (Except.ok.inj hpcb).symm⟩

theorem loader_move {garbage : ListEnd} (hstep : os.loaderStep config garbage = some next) :
    Move os (.loader garbage) next := by
  unfold loaderStep at hstep
  rcases hloader : os.loader with ⟨location, i⟩
  simp only [hloader] at hstep
  cases location with
  | load =>
      simp only at hstep
      split at hstep
      next hi =>
        cases hstep
        exact .load hloader hi
      next =>
        cases hstep
        exact .loaded hloader
  | addRunning =>
      cases hstep
      exact .addRunning hloader
  | addReady =>
      obtain ⟨sched, hadd, rfl⟩ := Option.map_eq_some_iff.mp hstep
      exact .addReady hloader (Runs.toOption_eq_some_iff.mp hadd)
  | stopped => cases hstep

/-- A call of `get_proc` takes the front of some ready queue, or finds them all empty and
leaves the scheduler as it is. -/
theorem get_move {leftover : Leftover} {id : Fin config.numCpus} {timeLeft : Int}
    (hcpu : Fetching (os.cpus id) timeLeft) :
    Move os (.cpu leftover id) (os.cpuGet id timeLeft) := by
  unfold cpuGet
  rcases Sched.getProc_cases os.sched with ⟨hget, -⟩ | ⟨level, usedSlot, proc, rest, hready, hget⟩
  · rw [hget]
    exact .getNone hcpu
  · rw [hget]
    exact .get hcpu hready

theorem top_move {leftover : Leftover} {id : Fin config.numCpus} {proc : Option Nat}
    {timeLeft : Int} (hcpu : os.cpus id = .top proc timeLeft)
    (hstep : os.cpuTop id proc timeLeft = .ok next) :
    Move os (.cpu leftover id) next := by
  unfold cpuTop at hstep
  cases proc with
  | none =>
      have hfetching : Fetching (os.cpus id) timeLeft := hcpu ▸ .idle timeLeft
      rcases Sched.getProc_cases os.sched with ⟨hget, -⟩ |
        ⟨level, usedSlot, proc, rest, hready, hget⟩
      · simp only [hget] at hstep
        cases hstep
        exact .idle hcpu
      · simp only [hget] at hstep
        cases hstep
        exact .get hfetching hready
  | some proc =>
      obtain ⟨pcb, hpcb, hrest⟩ := bind_eq_ok.mp hstep
      obtain ⟨halive, rfl⟩ := pcb_eq_ok hpcb
      by_cases hend : (os.pcbs proc).pc = (os.pcbs proc).code.length
      · rw [if_pos hend] at hrest
        cases hrest
        exact .finish hcpu halive hend
      · rw [if_neg hend] at hrest
        by_cases htime : timeLeft = 0
        · subst htime
          cases hrest
          exact .put hcpu halive hend
        · rw [if_neg htime] at hrest
          cases hrest
          exact .pass hcpu halive hend htime

theorem recheck_move {leftover : Leftover} {id : Fin config.numCpus} {proc : Option Nat}
    {timeLeft : Int} (hcpu : os.cpus id = .recheck proc timeLeft)
    (hstep : os.cpuRecheck config.timeSlot leftover id proc timeLeft = .ok next) :
    Move os (.cpu leftover id) next := by
  unfold cpuRecheck at hstep
  cases proc with
  | none =>
      simp only at hstep
      split at hstep
      next =>
        cases hstep
        exact .stop hcpu
      next =>
        cases hstep
        exact .again hcpu
  | some proc =>
      obtain ⟨after, hrun, hrest⟩ := bind_eq_ok.mp hstep
      cases hrest
      unfold Os.run at hrun
      obtain ⟨pcb, hpcb, hrun⟩ := bind_eq_ok.mp hrun
      obtain ⟨halive, rfl⟩ := pcb_eq_ok hpcb
      cases hins : (os.pcbs proc).code[(os.pcbs proc).pc]? with
      | none =>
          simp only [dispatch, hins] at hrun
          cases hrun
          exact .runPastEnd hcpu halive (List.getElem?_eq_none_iff.mp hins)
      | some ins =>
          simp only [dispatch, hins] at hrun
          obtain ⟨⟨status, krnl⟩, hexecute, hdone⟩ := bind_eq_ok.mp hrun
          cases hdone
          exact .run hcpu halive hins hexecute

/-- Every step is a move. -/
theorem move_of_step {event : OsEvent config.numCpus} (hstep : os.step config event = some next) :
    Move os event next := by
  cases event with
  | loader garbage => exact loader_move hstep
  | cpu leftover id =>
      replace hstep : os.cpuStep config leftover id = some next := hstep
      unfold cpuStep at hstep
      cases hcpu : os.cpus id with
      | top proc timeLeft =>
          simp only [hcpu] at hstep
          exact top_move hcpu (Runs.toOption_eq_some_iff.mp hstep)
      | putReady proc timeLeft =>
          simp only [hcpu] at hstep
          obtain ⟨-, -, hrest⟩ := bind_eq_ok.mp (Runs.toOption_eq_some_iff.mp hstep)
          obtain ⟨sched, hput, hdone⟩ := bind_eq_ok.mp hrest
          cases hdone
          exact .putReady hcpu hput
      | afterPut timeLeft =>
          simp only [hcpu] at hstep
          cases hstep
          exact get_move (hcpu ▸ .afterPut timeLeft)
      | afterFree =>
          simp only [hcpu] at hstep
          cases hstep
          exact get_move (hcpu ▸ .afterFree)
      | recheck proc timeLeft =>
          simp only [hcpu] at hstep
          exact recheck_move hcpu (Runs.toOption_eq_some_iff.mp hstep)
      | stopped =>
          simp only [hcpu] at hstep
          cases hstep

end Os

end SimpleOs
