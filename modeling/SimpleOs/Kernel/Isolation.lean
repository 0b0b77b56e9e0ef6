import SimpleOs.Kernel.MemoryLaw

/-! # Isolation of processes

The loader gives every process the same kernel structure and replaces the descriptor in
it at each admission. The machine here runs any processes in any order: their admissions,
their library calls, their preemptions and their ends. What a call observes is compared
with what the same process would observe if it were the only one.
-/

namespace SimpleOs

open MmStruct

variable {Proc : Type}

/-- The events of the machine that touch the kernel structure. The byte of a call is what
its unassigned local variables hold. -/
inductive KernelEvent (Proc : Type) where
  | load (proc : Proc)
  | exec (proc : Proc) (junk : Byte) (operation : LibCall)
  | put (proc : Proc)
  | finish (proc : Proc)
  deriving DecidableEq

/-- The shared kernel structure, with a record of the admitted processes, newest first, of
the finished ones, and of the calls executed so far. -/
structure SharedKernel (Proc : Type) where
  os : Krnl Proc
  admitted : List Proc
  finished : List Proc
  executed : List (Proc × Byte × LibCall)

/-- The symbol regions, the free regions and the page table. -/
def MmStruct.view (mm : MmStruct) : Regions × (Addr → Addr) := (mm.regions, mm.leaf)

namespace SharedKernel

def boot (os : Krnl Proc) : SharedKernel Proc where
  os := os
  admitted := []
  finished := []
  executed := []

variable [DecidableEq Proc]

/-- A process that was admitted and has not finished. -/
def Live (shared : SharedKernel Proc) (proc : Proc) : Prop :=
  proc ∈ shared.admitted ∧ proc ∉ shared.finished

instance (shared : SharedKernel Proc) : DecidablePred shared.Live := fun proc =>
  inferInstanceAs (Decidable (proc ∈ shared.admitted ∧ proc ∉ shared.finished))

/-- Reading the pid of a process. The process structure is freed when it finishes, and then
`freedPid` says what is found in its place. -/
def pidOf (pid : Proc → Word32) (freedPid : SharedKernel Proc → Proc → Except Fault Word32)
    (shared : SharedKernel Proc) (proc : Proc) : Except Fault Word32 :=
  if proc ∈ shared.finished then freedPid shared proc else .ok (pid proc)

/-- One event: an admission by `ld_routine`, a library call made by `run`, the insertion of
`put_proc` into the running list, or the `free` of a finished process. -/
def step (pid : Proc → Word32) (garbage : Proc → ListEnd)
    (freedPid : SharedKernel Proc → Proc → Except Fault Word32) (shared : SharedKernel Proc) :
    KernelEvent Proc → Option (SharedKernel Proc)
  | .load proc =>
      if proc ∈ shared.admitted then none
      else
        let os := shared.os.initMm (garbage proc)
        some { shared with
          os := { os with runningList := os.runningList.enqueue proc }
          admitted := proc :: shared.admitted }
  | .exec proc junk operation =>
      if shared.Live proc then
        (operation.call (shared.pidOf pid freedPid) junk shared.os (pid proc)).toOption.map
          fun (_, os) =>
            { shared with os := os, executed := shared.executed ++ [(proc, junk, operation)] }
      else none
  | .put proc =>
      if shared.Live proc then
        some { shared with
          os := { shared.os with runningList := shared.os.runningList.enqueue proc } }
      else none
  | .finish proc =>
      if shared.Live proc then some { shared with finished := proc :: shared.finished }
      else none

/-- The calls that a process has executed. -/
def ownCalls (shared : SharedKernel Proc) (proc : Proc) : List (Byte × LibCall) :=
  (shared.executed.filter fun entry => entry.1 = proc).map Prod.snd

/-- A process observes its own work: what its calls produce when it runs alone, on any
kernel structure. -/
def ObservesOwn (pid : Proc → Word32) (garbage : Proc → ListEnd) (shared : SharedKernel Proc)
    (proc : Proc) : Prop :=
  ∀ os : Krnl Proc, ∃ own,
    Runs.run (LibCall.step (fun other => .ok (pid other)) (pid proc)) (os.initMm (garbage proc))
      (shared.ownCalls proc) = some own ∧ shared.os.mm.view = own.mm.view

/-- The condition on one event: a call is made by the newest process. -/
def ByNewest (shared : SharedKernel Proc) : KernelEvent Proc → Prop
  | .exec proc _ _ => shared.admitted.head? = some proc
  | _ => True

instance (shared : SharedKernel Proc) : DecidablePred shared.ByNewest
  | .load _ => inferInstanceAs (Decidable True)
  | .exec proc _ _ => inferInstanceAs (Decidable (shared.admitted.head? = some proc))
  | .put _ => inferInstanceAs (Decidable True)
  | .finish _ => inferInstanceAs (Decidable True)

/-- What runs keep while the condition is met. -/
structure Separated (pid : Proc → Word32) (garbage : Proc → ListEnd)
    (shared : SharedKernel Proc) : Prop where
  executed_admitted : ∀ entry ∈ shared.executed, entry.1 ∈ shared.admitted
  newest : ∀ proc, shared.admitted.head? = some proc →
    shared.os.mm.Unmapped ∧ shared.ObservesOwn pid garbage proc

variable {pid : Proc → Word32} {garbage : Proc → ListEnd}
  {freedPid : SharedKernel Proc → Proc → Except Fault Word32} {shared next : SharedKernel Proc}
  {proc : Proc}

theorem separated_boot (os : Krnl Proc) : (boot os).Separated pid garbage where
  executed_admitted _ hmem := by cases hmem
  newest _ hnewest := by cases hnewest

theorem view_eq_of_unmapped {mm other : MmStruct} (hmm : mm.Unmapped) (hother : other.Unmapped)
    (hregions : mm.regions = other.regions) : mm.view = other.view := by
  have hleaf : mm.leaf = other.leaf := by
    funext pgn
    rw [hmm.leaf_zero, hother.leaf_zero]
  unfold MmStruct.view
  rw [hregions, hleaf]

/-- A process that was not admitted before has executed nothing. -/
theorem Separated.ownCalls_eq_nil (hseparated : shared.Separated pid garbage)
    (hproc : proc ∉ shared.admitted) : shared.ownCalls proc = [] := by
  unfold ownCalls
  rw [List.map_eq_nil_iff, List.filter_eq_nil_iff]
  intro entry hentry hsame
  have hadmitted := hseparated.executed_admitted entry hentry
  rw [of_decide_eq_true hsame] at hadmitted
  exact hproc hadmitted

theorem Separated.load (hseparated : shared.Separated pid garbage)
    (hproc : proc ∉ shared.admitted) (runningList : ProcQueue Proc) :
    ({ shared with
      os := { shared.os.initMm (garbage proc) with runningList := runningList }
      admitted := proc :: shared.admitted } : SharedKernel Proc).Separated pid garbage where
  executed_admitted entry hentry :=
    List.mem_cons_of_mem _ (hseparated.executed_admitted entry hentry)
  newest other hother := by
    obtain rfl : proc = other := Option.some.inj hother
    refine ⟨unmapped_initMm _, fun os => ⟨os.initMm (garbage proc), ?_, rfl⟩⟩
    have hnil := hseparated.ownCalls_eq_nil hproc
    unfold ownCalls at hnil ⊢
    rw [hnil, Runs.run_nil]

theorem ownCalls_exec (shared : SharedKernel Proc) (os : Krnl Proc) (proc : Proc) (junk : Byte)
    (operation : LibCall) :
    ({ shared with os := os, executed := shared.executed ++ [(proc, junk, operation)] } :
        SharedKernel Proc).ownCalls proc = shared.ownCalls proc ++ [(junk, operation)] := by
  unfold ownCalls
  rw [List.filter_append, List.map_append]
  simp

/-- A call by the newest process is the same call on its own kernel. -/
theorem Separated.exec {junk : Byte} {operation : LibCall} {status : Int} {os : Krnl Proc}
    (hseparated : shared.Separated pid garbage)
    (hnewest : shared.admitted.head? = some proc)
    (hcall : operation.call (shared.pidOf pid freedPid) junk shared.os (pid proc) =
      .ok (status, os)) :
    ({ shared with os := os, executed := shared.executed ++ [(proc, junk, operation)] } :
      SharedKernel Proc).Separated pid garbage where
  executed_admitted entry hentry := by
    rcases List.mem_append.mp hentry with hold | hnew
    · exact hseparated.executed_admitted entry hold
    · rw [List.mem_singleton.mp hnew]
      exact List.mem_of_head? hnewest
  newest other hother := by
    obtain rfl : proc = other := Option.some.inj (hnewest.symm.trans hother)
    obtain ⟨hunmapped, hobserves⟩ := hseparated.newest proc hnewest
    obtain ⟨hform, heffect⟩ := LibCall.call_spec hunmapped hcall
    refine ⟨hform, fun start => ?_⟩
    obtain ⟨own, hown, hview⟩ := hobserves start
    -- the effect depends on the regions alone, and these are the same on both kernels
    have hownForm := LibCall.run_unmapped (unmapped_initMm (garbage proc)) hown
    have hregions : shared.os.mm.regions = own.mm.regions := congrArg Prod.fst hview
    rw [hregions] at heffect
    have hpid : ∀ other, ∃ otherPid, (.ok (pid other) : Except Fault Word32) = .ok otherPid :=
      fun other => ⟨pid other, rfl⟩
    obtain ⟨⟨ownStatus, after⟩, hafter⟩ :=
      LibCall.exists_call hpid hownForm heffect junk (pid proc)
    obtain ⟨hafterForm, hafterEffect⟩ := LibCall.call_spec hownForm hafter
    refine ⟨after, ?_, view_eq_of_unmapped hform hafterForm ?_⟩
    · rw [ownCalls_exec, Runs.run_append, hown, Option.bind_some, Runs.run_cons]
      unfold LibCall.step
      rw [hafter]
      rfl
    · exact Option.some.inj (heffect.symm.trans hafterEffect)

theorem Separated.step {event : KernelEvent Proc} (hseparated : shared.Separated pid garbage)
    (hallowed : shared.ByNewest event)
    (hstep : shared.step pid garbage freedPid event = some next) :
    next.Separated pid garbage := by
  cases event with
  | load proc =>
      simp only [SharedKernel.step] at hstep
      split at hstep
      next => cases hstep
      next hproc =>
        cases hstep
        exact hseparated.load hproc _
  | exec proc junk operation =>
      simp only [SharedKernel.step] at hstep
      split at hstep
      next =>
        obtain ⟨⟨status, os⟩, hcall, rfl⟩ := Option.map_eq_some_iff.mp hstep
        exact hseparated.exec hallowed (Runs.toOption_eq_some_iff.mp hcall)
      next => cases hstep
  | put proc =>
      simp only [SharedKernel.step] at hstep
      split at hstep
      next =>
        cases hstep
        exact
          { executed_admitted := hseparated.executed_admitted
            newest := hseparated.newest }
      next => cases hstep
  | finish proc =>
      simp only [SharedKernel.step] at hstep
      split at hstep
      next =>
        cases hstep
        exact
          { executed_admitted := hseparated.executed_admitted
            newest := hseparated.newest }
      next => cases hstep

/-- In a run whose calls are all made by the newest process, a call observes its process's
own work. -/
theorem observesOwn_of_byNewest {os : Krnl Proc} {events : List (KernelEvent Proc)}
    (hnewest : ∀ move ∈ Runs.taken (step pid garbage freedPid) (boot os) events,
      move.1.ByNewest move.2)
    {move : SharedKernel Proc × KernelEvent Proc}
    (hmove : move ∈ Runs.taken (step pid garbage freedPid) (boot os) events) {junk : Byte}
    {operation : LibCall} (hexec : move.2 = .exec proc junk operation) :
    move.1.ObservesOwn pid garbage proc := by
  have hseparated := Runs.taken_invariant (Separated pid garbage) ByNewest
    (fun _ _ _ hallowed hinvariant hstep => hinvariant.step hallowed hstep)
    (separated_boot os) hnewest move hmove
  have hallowed := hnewest move hmove
  rw [hexec] at hallowed
  exact (hseparated.newest proc hallowed).2

/-- Isolation of a run: what a call observes is its process's own work, and it is the same
in every other run, with any other processes, in which that process has executed the same
calls. The other runs meet the condition too. -/
def Isolated (pid : Proc → Word32) (garbage : Proc → ListEnd)
    (freedPid : SharedKernel Proc → Proc → Except Fault Word32) (os : Krnl Proc)
    (events : List (KernelEvent Proc)) : Prop :=
  ∀ move ∈ Runs.taken (step pid garbage freedPid) (boot os) events, ∀ proc junk operation,
    move.2 = .exec proc junk operation →
      move.1.ObservesOwn pid garbage proc ∧
        ∀ otherFreedPid otherOs otherEvents,
          (∀ other ∈ Runs.taken (step pid garbage otherFreedPid) (boot otherOs) otherEvents,
            other.1.ByNewest other.2) →
          ∀ other ∈ Runs.taken (step pid garbage otherFreedPid) (boot otherOs) otherEvents,
            ∀ otherJunk otherOperation, other.2 = .exec proc otherJunk otherOperation →
              other.1.ownCalls proc = move.1.ownCalls proc →
                other.1.os.mm.view = move.1.os.mm.view

/-- A run whose calls are all made by the newest process is isolated. -/
theorem run_isolated (pid : Proc → Word32) (garbage : Proc → ListEnd)
    (freedPid : SharedKernel Proc → Proc → Except Fault Word32) (os : Krnl Proc)
    (events : List (KernelEvent Proc))
    (hnewest : ∀ move ∈ Runs.taken (step pid garbage freedPid) (boot os) events,
      move.1.ByNewest move.2) :
    Isolated pid garbage freedPid os events := by
  intro move hmove proc junk operation hexec
  have hobserves := observesOwn_of_byNewest hnewest hmove hexec
  refine ⟨hobserves, fun otherFreedPid otherOs otherEvents hotherNewest other hother otherJunk
    otherOperation hotherExec hsame => ?_⟩
  have hotherObserves := observesOwn_of_byNewest hotherNewest hother hotherExec
  -- both runs are compared with the process alone on one kernel
  obtain ⟨own, hown, hview⟩ := hobserves os
  obtain ⟨otherOwn, hotherOwn, hotherView⟩ := hotherObserves os
  rw [hsame, hown] at hotherOwn
  obtain rfl := Option.some.inj hotherOwn
  rw [hview, hotherView]

/-- A kernel structure before any admission. -/
def bootKernel : Krnl Nat where
  runningList := ProcQueue.zero
  mm := initMm .null
  mram := initMemphy ⟨[], 0, true, 0, ⟨[], .null⟩⟩ 1024 1 .null
  activeMswp := initMemphy ⟨[], 0, true, 0, ⟨[], .null⟩⟩ 1024 1 .null

/-- Two processes, the second admitted after the first has made its calls. -/
theorem run_isolated_in_turn :
    Isolated (BitVec.ofNat 32) (fun _ => .null) (fun _ _ => .ok 0) bootKernel
      [.load 1, .exec 1 0 (.alloc 100 0), .put 1, .exec 1 0 (.write 7 0 3), .finish 1,
        .load 2, .exec 2 0 (.alloc 50 0), .exec 2 0 (.free 0)] :=
  run_isolated _ _ _ _ _ (by decide +kernel)

/-- A process that has allocated 100 bytes finds no region once another is admitted. -/
theorem not_isolated_after_admission :
    ¬ Isolated (BitVec.ofNat 32) (fun _ => .null) (fun _ _ => .ok 0) bootKernel
      [.load 1, .exec 1 0 (.alloc 100 0), .load 2, .exec 1 0 (.read 0 3)] := by
  have hobserved : (Runs.taken (step (BitVec.ofNat 32) (fun _ => .null) fun _ _ => .ok 0)
      (boot bootKernel)
      [.load 1, .exec 1 0 (.alloc 100 0), .load 2, .exec 1 0 (.read 0 3)])[3]?.map
        (fun move => (move.2, move.1.os.mm.symrgtbl 0, move.1.ownCalls 1)) =
      some (.exec 1 0 (.read 0 3), { rgStart := 0, rgEnd := 0 }, [(0, .alloc 100 0)]) := by
    decide +kernel
  have halone : (Runs.run (LibCall.step (fun other => .ok (BitVec.ofNat 32 other)) 1)
      (bootKernel.initMm .null) [(0, .alloc 100 0)]).map (fun own => own.mm.symrgtbl 0) =
        some { rgStart := 0, rgEnd := 100 } := by
    decide +kernel
  intro hisolated
  obtain ⟨move, hmove, hfields⟩ := Option.map_eq_some_iff.mp hobserved
  obtain ⟨hexec, hrest⟩ := Prod.mk.inj hfields
  obtain ⟨hregion, hcalls⟩ := Prod.mk.inj hrest
  obtain ⟨own, hown, hview⟩ :=
    (hisolated move (List.mem_of_getElem? hmove) 1 0 (.read 0 3) hexec).1 bootKernel
  rw [hcalls] at hown
  have hsame : move.1.os.mm.symrgtbl 0 = own.mm.symrgtbl 0 :=
    congrArg (fun view => view.1.table 0) hview
  obtain ⟨alone, hrun, hallocated⟩ := Option.map_eq_some_iff.mp halone
  obtain rfl := Option.some.inj (hrun.symm.trans hown)
  rw [hregion, hallocated] at hsame
  exact absurd hsame (by decide)

end SharedKernel

end SimpleOs
