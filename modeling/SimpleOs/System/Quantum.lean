import SimpleOs.System.Life
import SimpleOs.System.Ownership

/-! # Execution with a time quantum

Whatever the order of steps, the simulator leads every process through a life: the local
variables of the CPU that holds it say how far its turn has come.
-/

namespace SimpleOs

/-- How many processes `load` has returned to the loader. -/
def Loader.loaded (loader : Loader) : Nat :=
  match loader.location with
  | .load => loader.i
  | .addRunning => loader.i + 1
  | .addReady => loader.i + 1
  | .stopped => loader.i

namespace Os

variable {config : Config}

/-- The marks of one process. -/
def ownLog (os : Os config.numCpus) (proc : Nat) : List Mark :=
  (os.log.filter fun entry => entry.1 = proc).map Prod.snd

/-- How many processes `load` has returned. -/
def loaded (os : Os config.numCpus) : Nat := os.loader.loaded

/-- A CPU in a turn that began at `start`, between two instructions. The quantum is split
between the executed instructions and `time_left` while there is code left. -/
structure InTurn (timeSlot : Int) (size start pc : Nat) (timeLeft : Int) : Prop where
  timeLeft_nonneg : 0 ≤ timeLeft
  start_le : start ≤ pc
  pc_le : pc ≤ size
  turn_le : (pc : Int) - start ≤ timeSlot
  quantum : pc < size → (pc : Int) - start + timeLeft = timeSlot

/-- The stage of a life that a process is in. -/
inductive Matches (os : Os config.numCpus) (proc : Nat) : Life → Prop where
  | waiting (halive : proc ∉ os.freed)
      (hpc : (os.pcbs proc).pc ≤ (config.text proc).length)
      (hholder : ∀ id, (os.cpus id).proc = some proc →
        os.cpus id = .recheck (some proc) 0 ∨ ∃ timeLeft, os.cpus id = .putReady proc timeLeft) :
      Matches os proc (.waiting (os.pcbs proc).pc)
  | running {start timeLeft} (halive : proc ∉ os.freed) (id : Fin config.numCpus)
      (hturn : InTurn config.timeSlot (config.text proc).length start (os.pcbs proc).pc timeLeft)
      (hcpu : os.cpus id = .top (some proc) timeLeft ∨
        os.cpus id = .recheck (some proc) timeLeft ∧ timeLeft ≠ 0 ∧
          (os.pcbs proc).pc < (config.text proc).length) :
      Matches os proc (.running start (os.pcbs proc).pc)
  | finished (hfreed : proc ∈ os.freed)
      (hpc : (os.pcbs proc).pc = (config.text proc).length) :
      Matches os proc (.finished (os.pcbs proc).pc)

/-- The process lives by its marks, and the life has come as far as the state says. -/
def Lives (os : Os config.numCpus) (proc : Nat) : Prop :=
  ∃ life, Runs.run (Life.step config.timeSlot (config.text proc).length) (.waiting 0)
    (os.ownLog proc) = some life ∧ os.Matches proc life

/-- A CPU without a process, or with one that it puts back, has no time left. -/
def Rested : Cpu → Prop
  | .top none timeLeft => timeLeft = 0
  | .putReady _ timeLeft => timeLeft = 0
  | .afterPut timeLeft => timeLeft = 0
  | .recheck none timeLeft => timeLeft = 0
  | _ => True

/-- The invariant of runs. -/
structure Tracked (os : Os config.numCpus) : Prop where
  owned : os.Owned
  rested : ∀ id, Rested (os.cpus id)
  code : ∀ proc < os.loaded, (os.pcbs proc).code = config.text proc
  lives : ∀ proc < os.loaded, os.Lives proc
  unmarked : ∀ proc, os.loaded ≤ proc → os.ownLog proc = []

variable {os next : Os config.numCpus} {proc : Nat}

theorem i_le_loaded (os : Os config.numCpus) : os.loader.i ≤ os.loaded := by
  unfold loaded Loader.loaded
  split <;> omega

theorem ownLog_append (os : Os config.numCpus) (other proc : Nat) (mark : Mark) :
    (os.mark other mark).ownLog proc =
      if other = proc then os.ownLog proc ++ [mark] else os.ownLog proc := by
  unfold ownLog Os.mark
  rw [List.filter_append, List.map_append]
  by_cases hsame : other = proc <;> simp [hsame]

theorem ownLog_dispatch (os : Os config.numCpus) (other proc : Nat) (timeLeft : Int) :
    (os.dispatch other timeLeft).ownLog proc =
      if other = proc ∧ timeLeft = 0 then os.ownLog proc ++ [.dispatch] else os.ownLog proc := by
  unfold dispatch
  by_cases htime : timeLeft = 0
  · simp only [htime, if_true, and_true]
    exact ownLog_append os other proc .dispatch
  · simp only [htime, if_false, and_false]

/-- A held process was loaded. -/
theorem Tracked.loaded_of_held (htracked : os.Tracked) {id : Fin config.numCpus}
    (hcpu : (os.cpus id).proc = some proc) : proc < os.loaded :=
  (htracked.owned.added_of_held (Or.inl (mem_held.mpr ⟨id, hcpu⟩))).trans_le os.i_le_loaded

/-- A step that touches neither a process nor its holder leaves its life alone. -/
theorem Lives.frame (hlives : os.Lives proc) (hlog : next.ownLog proc = os.ownLog proc)
    (hpcb : next.pcbs proc = os.pcbs proc) (hfreed : proc ∈ next.freed ↔ proc ∈ os.freed)
    (hcpus : ∀ id, (os.cpus id).proc = some proc ∨ (next.cpus id).proc = some proc →
      next.cpus id = os.cpus id) : next.Lives proc := by
  obtain ⟨life, hlife, hmatches⟩ := hlives
  refine ⟨life, by rw [hlog, hlife], ?_⟩
  cases hmatches with
  | waiting halive hpc hholder =>
      rw [← hpcb] at hpc ⊢
      refine .waiting (hfreed.not.mpr halive) hpc fun id hproc => ?_
      have hsame := hcpus id (Or.inr hproc)
      rw [hsame] at hproc ⊢
      exact hholder id hproc
  | running halive id hturn hcpu =>
      have hsame : next.cpus id = os.cpus id := by
        refine hcpus id (Or.inl ?_)
        rcases hcpu with hcpu | ⟨hcpu, -⟩ <;> rw [hcpu] <;> rfl
      rw [← hpcb, ← hsame] at hcpu
      rw [← hpcb] at hturn ⊢
      exact .running (hfreed.not.mpr halive) id hturn hcpu
  | finished hfreed' hpc =>
      rw [← hpcb] at hpc ⊢
      exact .finished (hfreed.mpr hfreed') hpc

/-- The same for a step of a CPU that holds another process, or none. -/
theorem Lives.frame_setCpu {id : Fin config.numCpus} {cpu : Cpu} (hlives : os.Lives proc)
    (hlog : (next.setCpu id cpu).ownLog proc = os.ownLog proc)
    (hpcb : next.pcbs proc = os.pcbs proc)
    (hfreed : proc ∈ next.freed ↔ proc ∈ os.freed) (hcpus : next.cpus = os.cpus)
    (hbefore : (os.cpus id).proc ≠ some proc) (hafter : cpu.proc ≠ some proc) :
    (next.setCpu id cpu).Lives proc := by
  refine hlives.frame hlog hpcb hfreed fun other hother => ?_
  have hne : other ≠ id := by
    rintro rfl
    rcases hother with hold | hnew
    · exact hbefore hold
    · rw [show (next.setCpu other cpu).cpus other = cpu from Function.update_self ..] at hnew
      exact hafter hnew
  change Function.update next.cpus id cpu other = os.cpus other
  rw [Function.update_of_ne hne, hcpus]

/-- After a step of the holder, still no other CPU holds the process. -/
theorem Owned.holder_update (howned : os.Owned) {id other : Fin config.numCpus} {cpu : Cpu}
    (hid : (os.cpus id).proc = some proc)
    (hother : (Function.update os.cpus id cpu other).proc = some proc) : other = id := by
  by_contra hne
  rw [Function.update_of_ne hne] at hother
  exact hne (howned.holder_unique hother hid)

/-! ## The stage of a held process -/

/-- The life of a process that a CPU holds is either waiting or in a turn, and where the CPU
stands tells which. -/
theorem Tracked.stage (htracked : os.Tracked) {id : Fin config.numCpus}
    (hproc : (os.cpus id).proc = some proc) :
    ∃ life, Runs.run (Life.step config.timeSlot (config.text proc).length) (.waiting 0)
        (os.ownLog proc) = some life ∧
      ((life = .waiting (os.pcbs proc).pc ∧ (os.pcbs proc).pc ≤ (config.text proc).length ∧
          (os.cpus id = .recheck (some proc) 0 ∨
            ∃ timeLeft, os.cpus id = .putReady proc timeLeft)) ∨
        ∃ start timeLeft, life = .running start (os.pcbs proc).pc ∧
          InTurn config.timeSlot (config.text proc).length start (os.pcbs proc).pc timeLeft ∧
          (os.cpus id = .top (some proc) timeLeft ∨
            os.cpus id = .recheck (some proc) timeLeft ∧ timeLeft ≠ 0 ∧
              (os.pcbs proc).pc < (config.text proc).length)) := by
  obtain ⟨life, hlife, hmatches⟩ := htracked.lives proc (htracked.loaded_of_held hproc)
  refine ⟨life, hlife, ?_⟩
  cases hmatches with
  | waiting halive hpc hholder => exact Or.inl ⟨rfl, hpc, hholder id hproc⟩
  | @running start timeLeft halive other hturn hcpu =>
      have hheld : (os.cpus other).proc = some proc := by
        rcases hcpu with hcpu | ⟨hcpu, -⟩ <;> rw [hcpu] <;> rfl
      -- the CPU that the turn is on is this one
      obtain rfl := htracked.owned.holder_unique hheld hproc
      exact Or.inr ⟨start, timeLeft, rfl, hturn, hcpu⟩
  | finished hfreed hpc =>
      exact absurd hfreed (htracked.owned.alive_of_held (mem_held.mpr ⟨id, hproc⟩))

theorem Tracked.stage_top (htracked : os.Tracked) {id : Fin config.numCpus} {timeLeft : Int}
    (hcpu : os.cpus id = .top (some proc) timeLeft) :
    ∃ start, Runs.run (Life.step config.timeSlot (config.text proc).length) (.waiting 0)
        (os.ownLog proc) = some (.running start (os.pcbs proc).pc) ∧
      InTurn config.timeSlot (config.text proc).length start (os.pcbs proc).pc timeLeft := by
  have hproc : (os.cpus id).proc = some proc := by simp only [hcpu, Cpu.proc]
  obtain ⟨life, hlife, ⟨rfl, -, hat⟩ | ⟨start, left, rfl, hturn, hat⟩⟩ := htracked.stage hproc
  · simp [hcpu] at hat
  · simp only [hcpu, Cpu.top.injEq, true_and, reduceCtorEq, false_and, or_false] at hat
    exact ⟨start, hlife, hat ▸ hturn⟩

theorem Tracked.stage_recheck (htracked : os.Tracked) {id : Fin config.numCpus} {timeLeft : Int}
    (hcpu : os.cpus id = .recheck (some proc) timeLeft) :
    (timeLeft = 0 ∧ Runs.run (Life.step config.timeSlot (config.text proc).length) (.waiting 0)
        (os.ownLog proc) = some (.waiting (os.pcbs proc).pc) ∧
      (os.pcbs proc).pc ≤ (config.text proc).length) ∨
    (timeLeft ≠ 0 ∧ ∃ start,
      Runs.run (Life.step config.timeSlot (config.text proc).length) (.waiting 0)
        (os.ownLog proc) = some (.running start (os.pcbs proc).pc) ∧
      InTurn config.timeSlot (config.text proc).length start (os.pcbs proc).pc timeLeft ∧
      (os.pcbs proc).pc < (config.text proc).length) := by
  have hproc : (os.cpus id).proc = some proc := by simp only [hcpu, Cpu.proc]
  obtain ⟨life, hlife, ⟨rfl, hpc, hat⟩ | ⟨start, left, rfl, hturn, hat⟩⟩ := htracked.stage hproc
  · simp only [hcpu, Cpu.recheck.injEq, true_and, reduceCtorEq, exists_const, or_false] at hat
    exact Or.inl ⟨hat, hlife, hpc⟩
  · simp only [hcpu, Cpu.recheck.injEq, true_and, reduceCtorEq, false_or] at hat
    obtain ⟨rfl, htime, hlt⟩ := hat
    exact Or.inr ⟨htime, start, hlife, hturn, hlt⟩

/-- A process that no CPU has dispatched is waiting. -/
theorem Tracked.stage_waiting (htracked : os.Tracked) (hloaded : proc < os.loaded)
    (halive : proc ∉ os.freed)
    (hidle : ∀ id, (os.cpus id).proc = some proc →
      ∃ timeLeft, os.cpus id = .putReady proc timeLeft) :
    Runs.run (Life.step config.timeSlot (config.text proc).length) (.waiting 0)
        (os.ownLog proc) = some (.waiting (os.pcbs proc).pc) ∧
      (os.pcbs proc).pc ≤ (config.text proc).length := by
  obtain ⟨life, hlife, hmatches⟩ := htracked.lives proc hloaded
  cases hmatches with
  | waiting halive hpc hholder => exact ⟨hlife, hpc⟩
  | running halive id hturn hcpu =>
      rcases hcpu with hcpu | ⟨hcpu, -⟩
      · obtain ⟨left, hput⟩ := hidle id (by rw [hcpu]; rfl)
        rw [hcpu] at hput
        cases hput
      · obtain ⟨left, hput⟩ := hidle id (by rw [hcpu]; rfl)
        rw [hcpu] at hput
        cases hput
  | finished hfreed hpc => exact absurd hfreed halive

/-! ## What a move makes of the process it is about -/

theorem Rested.of_fetching {cpu : Cpu} {timeLeft : Int} (hrested : Rested cpu)
    (hcpu : Fetching cpu timeLeft) : timeLeft = 0 := by
  cases hcpu with
  | idle timeLeft => exact hrested
  | afterPut timeLeft => exact hrested
  | afterFree => rfl

theorem Tracked.lives_get (htracked : os.Tracked) {id : Fin config.numCpus} {timeLeft : Int}
    {level : Fin maxPrio} {usedSlot : Int} {rest : List Nat}
    (hcpu : Fetching (os.cpus id) timeLeft) (hready : os.sched.ready level = proc :: rest) :
    ({ os with sched := (os.sched.dequeueAt level usedSlot).2 }.setCpu id
      (.recheck (some proc) timeLeft)).Lives proc := by
  have hmem : proc ∈ os.sched.ready level := hready ▸ List.mem_cons_self
  obtain ⟨hnotHeld, halive⟩ := htracked.owned.not_held_of_ready hmem
  have hloaded := (htracked.owned.added_of_ready hmem).trans_le os.i_le_loaded
  obtain ⟨hlife, hpc⟩ := htracked.stage_waiting hloaded halive
    fun other hother => absurd (mem_held.mpr ⟨other, hother⟩) hnotHeld
  refine ⟨_, hlife, .waiting halive hpc fun other hother => Or.inl ?_⟩
  have hsame : other = id := by
    by_contra hne
    have hold : (Function.update os.cpus id (.recheck (some proc) timeLeft) other).proc =
        some proc := hother
    rw [Function.update_of_ne hne] at hold
    exact hnotHeld (mem_held.mpr ⟨other, hold⟩)
  subst hsame
  rw [(htracked.rested other).of_fetching hcpu]
  exact Function.update_self ..

theorem Tracked.lives_finish (htracked : os.Tracked) {id : Fin config.numCpus} {timeLeft : Int}
    (hcpu : os.cpus id = .top (some proc) timeLeft)
    (hend : (os.pcbs proc).pc = (os.pcbs proc).code.length) :
    (({ os with freed := proc :: os.freed }.mark proc .finish).setCpu id
      .afterFree).Lives proc := by
  have hproc : (os.cpus id).proc = some proc := by rw [hcpu]; rfl
  obtain ⟨start, hlife, hturn⟩ := htracked.stage_top hcpu
  rw [htracked.code proc (htracked.loaded_of_held hproc)] at hend
  refine ⟨.finished (os.pcbs proc).pc, ?_, .finished List.mem_cons_self hend⟩
  -- the code has ended, so what was left of it was due
  have hdue : ((os.pcbs proc).pc : Int) - start =
      Life.due config.timeSlot (config.text proc).length start := by
    have hle := hturn.turn_le
    unfold Life.due
    omega
  have hlog : (({ os with freed := proc :: os.freed }.mark proc .finish).setCpu id
      .afterFree).ownLog proc = os.ownLog proc ++ [.finish] :=
    (ownLog_append os proc proc .finish).trans (if_pos rfl)
  rw [hlog]
  exact Runs.run_snoc hlife (Life.step_finish hend hdue)

theorem Tracked.lives_put (htracked : os.Tracked) {id : Fin config.numCpus}
    (hcpu : os.cpus id = .top (some proc) 0)
    (hpc : (os.pcbs proc).pc ≠ (os.pcbs proc).code.length) :
    (({ os with sched := os.sched.enqueueRunning proc }.mark proc .put).setCpu id
      (.putReady proc 0)).Lives proc := by
  have hproc : (os.cpus id).proc = some proc := by rw [hcpu]; rfl
  have halive := htracked.owned.alive_of_held (mem_held.mpr ⟨id, hproc⟩)
  obtain ⟨start, hlife, hturn⟩ := htracked.stage_top hcpu
  rw [htracked.code proc (htracked.loaded_of_held hproc)] at hpc
  have hlt : (os.pcbs proc).pc < (config.text proc).length :=
    Nat.lt_of_le_of_ne hturn.pc_le hpc
  refine ⟨.waiting (os.pcbs proc).pc, ?_, .waiting halive hturn.pc_le fun other hother => ?_⟩
  -- no time is left and some code is, so the whole quantum was due
  · have hdue : ((os.pcbs proc).pc : Int) - start =
        Life.due config.timeSlot (config.text proc).length start := by
      have hquantum := hturn.quantum hlt
      unfold Life.due
      omega
    have hlog : (({ os with sched := os.sched.enqueueRunning proc }.mark proc .put).setCpu id
        (.putReady proc 0)).ownLog proc = os.ownLog proc ++ [.put] :=
      (ownLog_append os proc proc .put).trans (if_pos rfl)
    rw [hlog]
    exact Runs.run_snoc hlife (Life.step_put hdue)
  · obtain rfl : other = id := htracked.owned.holder_update hproc hother
    exact Or.inr ⟨0, Function.update_self ..⟩

theorem Tracked.lives_pass (htracked : os.Tracked) {id : Fin config.numCpus} {timeLeft : Int}
    (hcpu : os.cpus id = .top (some proc) timeLeft)
    (hpc : (os.pcbs proc).pc ≠ (os.pcbs proc).code.length) (htime : timeLeft ≠ 0) :
    (os.setCpu id (.recheck (some proc) timeLeft)).Lives proc := by
  have hproc : (os.cpus id).proc = some proc := by rw [hcpu]; rfl
  have halive := htracked.owned.alive_of_held (mem_held.mpr ⟨id, hproc⟩)
  obtain ⟨start, hlife, hturn⟩ := htracked.stage_top hcpu
  rw [htracked.code proc (htracked.loaded_of_held hproc)] at hpc
  exact ⟨_, hlife, .running halive id hturn
    (Or.inr ⟨Function.update_self .., htime, Nat.lt_of_le_of_ne hturn.pc_le hpc⟩)⟩

theorem Tracked.lives_putReady (htracked : os.Tracked) {id : Fin config.numCpus} {timeLeft : Int}
    {sched : Sched Nat} (hcpu : os.cpus id = .putReady proc timeLeft) :
    ({ os with sched := sched }.setCpu id (.afterPut timeLeft)).Lives proc := by
  have hproc : (os.cpus id).proc = some proc := by rw [hcpu]; rfl
  have halive := htracked.owned.alive_of_held (mem_held.mpr ⟨id, hproc⟩)
  obtain ⟨hlife, hpc⟩ := htracked.stage_waiting (htracked.loaded_of_held hproc) halive
    fun other hother => by
      obtain rfl := htracked.owned.holder_unique hother hproc
      exact ⟨timeLeft, hcpu⟩
  refine ⟨_, hlife, .waiting halive hpc fun other hother => ?_⟩
  obtain rfl : other = id := htracked.owned.holder_update hproc hother
  have hnone : (Function.update os.cpus other (.afterPut timeLeft) other).proc = some proc := hother
  rw [Function.update_self] at hnone
  cases hnone

/-- The second check dispatches a process that has no time left, and its life is in a turn. -/
theorem Tracked.dispatched (htracked : os.Tracked) (hslot : 0 < config.timeSlot)
    {id : Fin config.numCpus} {timeLeft : Int}
    (hcpu : os.cpus id = .recheck (some proc) timeLeft) :
    ∃ start, Runs.run (Life.step config.timeSlot (config.text proc).length) (.waiting 0)
        ((os.dispatch proc timeLeft).ownLog proc) = some (.running start (os.pcbs proc).pc) ∧
      InTurn config.timeSlot (config.text proc).length start (os.pcbs proc).pc
        (if timeLeft = 0 then config.timeSlot else timeLeft) ∧
      0 < (if timeLeft = 0 then config.timeSlot else timeLeft) := by
  rw [ownLog_dispatch]
  rcases htracked.stage_recheck hcpu with ⟨rfl, hlife, hpc⟩ | ⟨htime, start, hlife, hturn, hlt⟩
  -- a turn begins here, or it goes on
  · refine ⟨(os.pcbs proc).pc, ?_, ?_, hslot⟩
    · simp only [and_self, if_true]
      exact Runs.run_snoc hlife rfl
    · simp only [if_true]
      exact
        { timeLeft_nonneg := hslot.le, start_le := Nat.le_refl _, pc_le := hpc
          turn_le := (by omega), quantum := (by omega) }
  · simp only [htime, and_false, if_false]
    have hnonneg := hturn.timeLeft_nonneg
    exact ⟨start, hlife, hturn, by omega⟩

theorem Tracked.lives_runPastEnd (htracked : os.Tracked) (hslot : 0 < config.timeSlot)
    {id : Fin config.numCpus} {timeLeft : Int}
    (hcpu : os.cpus id = .recheck (some proc) timeLeft)
    (hend : (os.pcbs proc).code.length ≤ (os.pcbs proc).pc) :
    ((os.dispatch proc timeLeft).setCpu id
      (.top (some proc) ((if timeLeft = 0 then config.timeSlot else timeLeft) - 1))).Lives
        proc := by
  have hproc : (os.cpus id).proc = some proc := by rw [hcpu]; rfl
  have halive := htracked.owned.alive_of_held (mem_held.mpr ⟨id, hproc⟩)
  rw [htracked.code proc (htracked.loaded_of_held hproc)] at hend
  obtain ⟨start, hlife, hturn, htime⟩ := htracked.dispatched hslot hcpu
  -- `run` returns at once, so the quantum is lost, but no code is left for it either
  refine ⟨_, hlife, .running halive id ?_ (Or.inl (Function.update_self ..))⟩
  exact
    { timeLeft_nonneg := by omega, start_le := hturn.start_le, pc_le := hturn.pc_le
      turn_le := hturn.turn_le, quantum := fun hlt => absurd hend (Nat.not_le.mpr hlt) }

theorem Tracked.lives_run (htracked : os.Tracked) (hslot : 0 < config.timeSlot)
    {id : Fin config.numCpus} {timeLeft : Int} {ins : InstT} {krnl : Krnl Nat}
    (hcpu : os.cpus id = .recheck (some proc) timeLeft)
    (hins : (os.pcbs proc).code[(os.pcbs proc).pc]? = some ins) :
    ((((os.dispatch proc timeLeft).advance proc).setKrnl krnl).setCpu id
      (.top (some proc) ((if timeLeft = 0 then config.timeSlot else timeLeft) - 1))).Lives
        proc := by
  have hproc : (os.cpus id).proc = some proc := by rw [hcpu]; rfl
  have halive := htracked.owned.alive_of_held (mem_held.mpr ⟨id, hproc⟩)
  have hlt := (List.getElem?_eq_some_iff.mp hins).1
  rw [htracked.code proc (htracked.loaded_of_held hproc)] at hlt
  obtain ⟨start, hlife, hturn, htime⟩ := htracked.dispatched hslot hcpu
  have hquantum := hturn.quantum hlt
  have hpcb : ((os.dispatch proc timeLeft).advance proc).pcbs proc =
      { os.pcbs proc with pc := (os.pcbs proc).pc + 1 } := Function.update_self ..
  have hpc : (((os.dispatch proc timeLeft).advance proc).pcbs proc).pc =
      (os.pcbs proc).pc + 1 := congrArg Pcb.pc hpcb
  have hlog : ((os.dispatch proc timeLeft).advance proc).ownLog proc =
      (os.dispatch proc timeLeft).ownLog proc ++ [.execute (os.pcbs proc).pc] :=
    (ownLog_append ((os.dispatch proc timeLeft).setPcb proc
      { os.pcbs proc with pc := (os.pcbs proc).pc + 1 }) proc proc _).trans (if_pos rfl)
  refine ⟨.running start (((os.dispatch proc timeLeft).advance proc).pcbs proc).pc, ?_,
    .running halive id ?_ (Or.inl (Function.update_self ..))⟩
  · change Runs.run _ _ (((os.dispatch proc timeLeft).advance proc).ownLog proc) = _
    rw [hlog, hpc]
    exact Runs.run_snoc hlife (Life.step_execute hlt)
  · change InTurn _ _ _ (((os.dispatch proc timeLeft).advance proc).pcbs proc).pc _
    rw [hpc]
    have hstart := hturn.start_le
    -- one more instruction is executed and one unit less of time is left
    exact
      { timeLeft_nonneg := by omega, start_le := by omega, pc_le := hlt
        turn_le := (by omega), quantum := (by omega) }

/-! ## Runs -/

/-- A step of a CPU is about at most one process, whose life has to be followed. -/
theorem Tracked.cpu_step {base : Os config.numCpus} {id : Fin config.numCpus} {cpu : Cpu}
    (htracked : os.Tracked) (about : Option Nat) (howned : (base.setCpu id cpu).Owned)
    (hloader : base.loader = os.loader) (hcpus : base.cpus = os.cpus) (hrested : Rested cpu)
    (hbefore : ∀ proc, (os.cpus id).proc = some proc → about = some proc)
    (hafter : ∀ proc, cpu.proc = some proc → about = some proc)
    (hcode : ∀ proc, (base.pcbs proc).code = (os.pcbs proc).code)
    (habout : ∀ proc, about = some proc →
      proc < os.loaded ∧ (base.setCpu id cpu).Lives proc)
    (hother : ∀ proc, about ≠ some proc → (base.setCpu id cpu).ownLog proc = os.ownLog proc ∧
      base.pcbs proc = os.pcbs proc ∧ (proc ∈ base.freed ↔ proc ∈ os.freed)) :
    (base.setCpu id cpu).Tracked := by
  have hloaded : (base.setCpu id cpu).loaded = os.loaded := congrArg Loader.loaded hloader
  refine
    { owned := howned, rested := fun other => ?_, code := fun proc hproc => ?_
      lives := fun proc hproc => ?_, unmarked := fun proc hproc => ?_ }
  · change Rested (Function.update base.cpus id cpu other)
    by_cases hsame : other = id
    · subst hsame
      rw [Function.update_self]
      exact hrested
    · rw [Function.update_of_ne hsame, hcpus]
      exact htracked.rested other
  · rw [hloaded] at hproc
    exact (hcode proc).trans (htracked.code proc hproc)
  -- any other process is held by other CPUs only, before the step and after it
  · rw [hloaded] at hproc
    by_cases hsame : about = some proc
    · exact (habout proc hsame).2
    · obtain ⟨hlog, hpcb, hfreed⟩ := hother proc hsame
      exact (htracked.lives proc hproc).frame_setCpu hlog hpcb hfreed hcpus
        (fun hheld => hsame (hbefore proc hheld)) (fun hheld => hsame (hafter proc hheld))
  · rw [hloaded] at hproc
    have hsame : about ≠ some proc := fun heq =>
      absurd (habout proc heq).1 (Nat.not_lt.mpr hproc)
    rw [(hother proc hsame).1]
    exact htracked.unmarked proc hproc

theorem Tracked.load (htracked : os.Tracked) {i : Nat} {garbage : ListEnd}
    (hloader : os.loader = { location := .load, i := i }) (hi : i < config.numProcesses) :
    ({ os.setPcb i (newPcb config i) with
        mm := initMm garbage
        loader := { location := .addRunning, i := i } } : Os config.numCpus).Tracked := by
  have hloaded : os.loaded = i := congrArg Loader.loaded hloader
  have hcounter : os.loader.i = i := congrArg Loader.i hloader
  have hsplit : ∀ {proc}, proc < i + 1 → proc = i ∨ proc < os.loaded := fun hlt => by omega
  have hpcb : Function.update os.pcbs i (newPcb config i) i = newPcb config i :=
    Function.update_self ..
  refine
    { owned := htracked.owned.move (Move.load hloader hi : Move os (.loader garbage) _)
      rested := htracked.rested, code := fun proc hproc => ?_, lives := fun proc hproc => ?_
      unmarked := fun proc hproc => ?_ }
  · change (Function.update os.pcbs i (newPcb config i) proc).code = config.text proc
    rcases hsplit hproc with rfl | hold
    · rw [hpcb]
      rfl
    · rw [Function.update_of_ne (by omega)]
      exact htracked.code proc hold
  · rcases hsplit hproc with rfl | hold
    · -- a new process has no mark, and nobody has seen it yet
      have hnew : ∀ {other : Nat}, other ∈ os.held ∨ other ∈ os.freed → other ≠ proc := by
        rintro other hother rfl
        have hadded := htracked.owned.added_of_held hother
        omega
      have hlife : Runs.run (Life.step config.timeSlot (config.text proc).length) (.waiting 0)
          (os.ownLog proc) =
            some (.waiting (Function.update os.pcbs proc (newPcb config proc) proc).pc) := by
        rw [htracked.unmarked proc (by omega), hpcb]
        rfl
      refine ⟨_, hlife, .waiting (fun hfreed => hnew (Or.inr hfreed) rfl) ?_
        fun id hid => absurd rfl (hnew (Or.inl (mem_held.mpr ⟨id, hid⟩)))⟩
      change (Function.update os.pcbs proc (newPcb config proc) proc).pc ≤ _
      rw [hpcb]
      exact Nat.zero_le _
    · exact (htracked.lives proc hold).frame rfl (Function.update_of_ne (by omega) _ _) Iff.rfl
        fun _ _ => rfl
  · have hle : i + 1 ≤ proc := hproc
    exact htracked.unmarked proc (by omega)

/-- A step of the loader after `load` concerns no process that was marked. -/
theorem Tracked.loader_step (htracked : os.Tracked) (howned : next.Owned)
    (hloaded : next.loaded = os.loaded) (hcpus : next.cpus = os.cpus)
    (hpcbs : next.pcbs = os.pcbs) (hfreed : next.freed = os.freed) (hlog : next.log = os.log) :
    next.Tracked where
  owned := howned
  rested id := by
    rw [hcpus]
    exact htracked.rested id
  code proc hproc := by
    rw [hpcbs]
    exact htracked.code proc (hloaded ▸ hproc)
  lives proc hproc := by
    have hown : next.ownLog proc = os.ownLog proc := by
      unfold ownLog
      rw [hlog]
    exact (htracked.lives proc (hloaded ▸ hproc)).frame hown (by rw [hpcbs]) (by rw [hfreed])
      fun id _ => by rw [hcpus]
  unmarked proc hproc := by
    unfold ownLog
    rw [hlog]
    exact htracked.unmarked proc (hloaded ▸ hproc)

end Os

end SimpleOs
