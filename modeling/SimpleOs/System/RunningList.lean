import SimpleOs.Kernel.CallerSearch
import SimpleOs.System.Quantum

/-! # Membership in the running list

`add_proc` and `put_proc` append to `running_list`, system calls rotate it, and nothing
takes a process out of it when it is freed. The exact condition under which a step keeps
the list a list of the live processes becomes an exact condition for runs.
-/

namespace SimpleOs

/-- An instruction permutes the running list at most. -/
theorem InstT.execute_perm {Proc : Type} {pidOf : Proc → Except Fault Word32} {junk : Byte}
    {krnl next : Krnl Proc} {pid : Word32} {ins : InstT} {status : Int}
    (hexecute : ins.execute pidOf junk krnl pid = .ok (status, next)) :
    next.runningList.items.Perm krnl.runningList.items := by
  unfold InstT.execute at hexecute
  split at hexecute
  next =>
    cases hexecute
    exact List.Perm.refl _
  next => exact LibCall.call_perm hexecute
  next => exact LibCall.call_perm hexecute
  next => exact LibCall.call_perm hexecute
  next => exact LibCall.call_perm hexecute
  next =>
    obtain ⟨⟨value, after, regs⟩, hcall, hdone⟩ := bind_eq_ok.mp hexecute
    cases hdone
    exact syscall_perm hcall

/-- How many processes `add_proc` has offered to the running list. -/
def Loader.admitted (loader : Loader) : Nat :=
  match loader.location with
  | .load => loader.i
  | .addRunning => loader.i
  | .addReady => loader.i + 1
  | .stopped => loader.i

namespace Os

variable {config : Config}

def admitted (os : Os config.numCpus) : Nat := os.loader.admitted

/-- An admitted process that has not finished. -/
def Live (os : Os config.numCpus) (proc : Nat) : Prop := proc < os.admitted ∧ proc ∉ os.freed

/-- The entries of the running list. -/
def listed (os : Os config.numCpus) : List Nat := os.sched.runningList.items

/-- The running list holds every live process exactly once and no freed one. -/
structure ListsLive (os : Os config.numCpus) : Prop where
  live_once : ∀ proc, os.Live proc → os.listed.count proc = 1
  not_freed : ∀ proc ∈ os.listed, proc ∉ os.freed

/-- The law of the running list: its membership, and that the search of a system call made by
a live process finds this process without a look at a freed one, which would fault. -/
structure RunningListLaw (os : Os config.numCpus) : Prop where
  lists_live : os.ListsLive
  search_finds : ∀ proc, os.Live proc →
    ∃ krnl, findCaller os.pidOf os.krnl (os.pcbs proc).pid = .ok (some proc, krnl)

/-- The condition on one step, in the state before it: a process is admitted while the list
has room, no process finishes, and one is put back only while the list is full. -/
def KeepsList (os : Os config.numCpus) : OsEvent config.numCpus → Prop
  | .loader _ =>
      os.loader.location = .addRunning → os.sched.runningList.size < maxQueueSize
  | .cpu _ id => ∀ proc timeLeft, os.cpus id = .top (some proc) timeLeft →
      (os.pcbs proc).pc ≠ (os.pcbs proc).code.length ∧
        (timeLeft = 0 → maxQueueSize ≤ os.sched.runningList.size)

/-- What every run keeps. -/
structure Listing (os : Os config.numCpus) : Prop where
  owned : os.Owned
  pid : ∀ proc < os.loaded, (os.pcbs proc).pid = BitVec.ofNat 32 (proc + 1)
  listed_admitted : ∀ proc ∈ os.listed, proc < os.admitted

variable {os next : Os config.numCpus}

theorem i_le_admitted (os : Os config.numCpus) : os.loader.i ≤ os.admitted := by
  unfold admitted Loader.admitted
  split <;> omega

theorem admitted_le_loaded (os : Os config.numCpus) : os.admitted ≤ os.loaded := by
  unfold admitted loaded Loader.admitted Loader.loaded
  cases os.loader.location <;> simp only <;> omega

theorem Owned.loaded_le (howned : os.Owned) : os.loaded ≤ config.numProcesses := by
  have hle := howned.i_le
  have hlt := howned.i_lt
  unfold loaded Loader.loaded
  split
  next => exact hle
  next hlocation => exact hlt (Or.inl hlocation)
  next hlocation => exact hlt (Or.inr hlocation)
  next => exact hle

/-! ## The search -/

theorem Listing.pidOf_eq (hlisting : os.Listing) {proc : Nat} (hloaded : proc < os.loaded)
    (halive : proc ∉ os.freed) : os.pidOf proc = .ok (BitVec.ofNat 32 (proc + 1)) := by
  unfold pidOf Os.pcb
  rw [if_neg halive]
  exact congrArg Except.ok (hlisting.pid proc hloaded)

theorem pid_inj {proc other : Nat} (hproc : proc < config.numProcesses)
    (hother : other < config.numProcesses)
    (hsame : BitVec.ofNat 32 (proc + 1) = BitVec.ofNat 32 (other + 1)) : proc = other := by
  have hbound := config.numProcesses_lt
  have hnat := congrArg BitVec.toNat hsame
  rw [BitVec.toNat_ofNat, BitVec.toNat_ofNat] at hnat
  omega

/-- The search of a live process finds it as soon as the list is right. -/
theorem ListsLive.law (hlists : os.ListsLive) (hlisting : os.Listing) : os.RunningListLaw where
  lists_live := hlists
  search_finds proc hlive := by
    have hlt : ∀ other, other < os.admitted → other < os.loaded :=
      fun other hother => hother.trans_le os.admitted_le_loaded
    have hmem : proc ∈ os.listed :=
      List.count_pos_iff.mp (by rw [hlists.live_once proc hlive]; exact Nat.one_pos)
    rw [hlisting.pid proc (hlt proc hlive.1)]
    -- pids are positions in the configuration, so no other entry has this one
    refine findCaller_finds hmem (hlisting.pidOf_eq (hlt proc hlive.1) hlive.2)
      fun other hother => ?_
    have hother' := hlt other (hlisting.listed_admitted other hother)
    refine ⟨_, hlisting.pidOf_eq hother' (hlists.not_freed other hother), fun hsame => ?_⟩
    exact pid_inj (hother'.trans_le hlisting.owned.loaded_le)
      ((hlt proc hlive.1).trans_le hlisting.owned.loaded_le) hsame

theorem Listing.law_iff (hlisting : os.Listing) : os.RunningListLaw ↔ os.ListsLive :=
  ⟨fun hlaw => hlaw.lists_live, fun hlists => hlists.law hlisting⟩

/-! ## Steps that leave the list alone -/

/-- A step that permutes the list and admits and frees nobody. -/
theorem ListsLive.congr (hlists : os.ListsLive) (hlisted : next.listed.Perm os.listed)
    (hadmitted : next.admitted = os.admitted) (hfreed : next.freed = os.freed) :
    next.ListsLive where
  live_once proc hlive := by
    unfold Live at hlive
    rw [hadmitted, hfreed] at hlive
    rw [hlisted.count_eq]
    exact hlists.live_once proc hlive
  not_freed proc hproc := by
    rw [hfreed]
    exact hlists.not_freed proc (hlisted.mem_iff.mp hproc)

theorem Listing.congr (hlisting : os.Listing) (howned : next.Owned)
    (hlisted : next.listed.Perm os.listed) (hadmitted : next.admitted = os.admitted)
    (hloaded : next.loaded = os.loaded)
    (hpid : ∀ proc, (next.pcbs proc).pid = (os.pcbs proc).pid) : next.Listing where
  owned := howned
  pid proc hproc := by
    rw [hpid]
    exact hlisting.pid proc (hloaded ▸ hproc)
  listed_admitted proc hproc := by
    rw [hadmitted]
    exact hlisting.listed_admitted proc (hlisted.mem_iff.mp hproc)

theorem pid_advance (proc other : Nat) :
    ((os.advance proc).pcbs other).pid = (os.pcbs other).pid := by
  change (Function.update os.pcbs proc _ other).pid = _
  by_cases hsame : other = proc
  · subst hsame
    rw [Function.update_self]
  · rw [Function.update_of_ne hsame]

theorem listed_enqueueRunning (os : Os config.numCpus) (proc : Nat) :
    (os.sched.enqueueRunning proc).runningList.items =
      if os.listed.length < maxQueueSize then os.listed ++ [proc] else os.listed :=
  ProcQueue.items_enqueue _ _

/-! ## The steps that change the list -/

/-- The process that the loader is about to add is new to the list. -/
theorem Listing.not_listed (hlisting : os.Listing) {i : Nat}
    (hloader : os.loader = { location := .addRunning, i := i }) : i ∉ os.listed := by
  intro hmem
  have hlt := hlisting.listed_admitted i hmem
  have hadmitted : os.admitted = i := congrArg Loader.admitted hloader
  omega

/-- An admission keeps the law exactly while the list has room. -/
theorem Listing.addRunning_iff (hlisting : os.Listing) (hlists : os.ListsLive) {i : Nat}
    (hloader : os.loader = { location := .addRunning, i := i }) :
    ({ os with
        sched := os.sched.enqueueRunning i
        loader := { location := .addReady, i := i } } : Os config.numCpus).ListsLive ↔
      os.listed.length < maxQueueSize := by
  have hnotListed := hlisting.not_listed hloader
  have hadmitted : os.admitted = i := congrArg Loader.admitted hloader
  have hnotFreed : i ∉ os.freed := fun hfreed => by
    have hlt := hlisting.owned.added_of_held (Or.inr hfreed)
    rw [hloader] at hlt
    exact Nat.lt_irrefl i hlt
  constructor
  · intro hnext
    by_contra hfull
    -- a full list drops the new process, which is then not in it at all
    have hcount : (os.sched.enqueueRunning i).runningList.items.count i = 1 :=
      hnext.live_once i ⟨Nat.lt_succ_self i, hnotFreed⟩
    rw [listed_enqueueRunning, if_neg hfull, List.count_eq_zero.mpr hnotListed] at hcount
    cases hcount
  · intro hroom
    have hitems : (os.sched.enqueueRunning i).runningList.items = os.listed ++ [i] := by
      rw [listed_enqueueRunning, if_pos hroom]
    refine { live_once := fun proc hlive => ?_, not_freed := fun proc hproc => ?_ }
    · change (os.sched.enqueueRunning i).runningList.items.count proc = 1
      rw [hitems, List.count_append]
      by_cases hsame : proc = i
      · rw [hsame, List.count_eq_zero.mpr hnotListed, List.count_singleton_self]
      · have hlt : proc < i + 1 := hlive.1
        rw [hlists.live_once proc ⟨by omega, hlive.2⟩,
          List.count_eq_zero.mpr fun hmem => hsame (List.mem_singleton.mp hmem)]
    · have hmem : proc ∈ (os.sched.enqueueRunning i).runningList.items := hproc
      rw [hitems, List.mem_append, List.mem_singleton] at hmem
      rcases hmem with hold | rfl
      · exact hlists.not_freed proc hold
      · exact hnotFreed

/-- The end of a process never keeps the law: the process stays in the list. -/
theorem ListsLive.not_finish (hlists : os.ListsLive) {id : Fin config.numCpus} {proc : Nat}
    (hlive : os.Live proc) :
    ¬ (({ os with freed := proc :: os.freed }.mark proc .finish).setCpu id .afterFree :
      Os config.numCpus).ListsLive := by
  intro hnext
  have hmem : proc ∈ os.listed :=
    List.count_pos_iff.mp (by rw [hlists.live_once proc hlive]; exact Nat.one_pos)
  exact hnext.not_freed proc hmem List.mem_cons_self

/-- A preemption keeps the law exactly while the list is full: otherwise the process is in
it twice. -/
theorem ListsLive.put_iff (hlists : os.ListsLive) {id : Fin config.numCpus} {proc : Nat}
    (hlive : os.Live proc) :
    (({ os with sched := os.sched.enqueueRunning proc }.mark proc .put).setCpu id
        (.putReady proc 0) : Os config.numCpus).ListsLive ↔
      maxQueueSize ≤ os.listed.length := by
  constructor
  · intro hnext
    by_contra hroom
    have hcount : (os.sched.enqueueRunning proc).runningList.items.count proc = 1 :=
      hnext.live_once proc hlive
    rw [listed_enqueueRunning, if_pos (Nat.lt_of_not_le hroom), List.count_append,
      hlists.live_once proc hlive, List.count_singleton_self] at hcount
    cases hcount
  · intro hfull
    have hitems : (os.sched.enqueueRunning proc).runningList.items = os.listed := by
      rw [listed_enqueueRunning, if_neg (Nat.not_lt.mpr hfull)]
    exact hlists.congr (List.Perm.of_eq hitems) rfl rfl

theorem Owned.live_of_held (howned : os.Owned) {id : Fin config.numCpus} {proc : Nat}
    (hcpu : (os.cpus id).proc = some proc) : os.Live proc :=
  ⟨(howned.added_of_held (Or.inl (mem_held.mpr ⟨id, hcpu⟩))).trans_le os.i_le_admitted,
    howned.alive_of_held (mem_held.mpr ⟨id, hcpu⟩)⟩

/-- The condition on a CPU that does not stand at the top with a process is void. -/
theorem keepsList_of_not_top {leftover : Leftover} {id : Fin config.numCpus} {cpu : Cpu}
    (hcpu : os.cpus id = cpu) (htop : ∀ proc timeLeft, cpu ≠ .top (some proc) timeLeft) :
    os.KeepsList (.cpu leftover id) := fun proc timeLeft heq => absurd (hcpu.symm.trans heq)
      (htop proc timeLeft)

theorem keepsList_of_fetching {leftover : Leftover} {id : Fin config.numCpus} {timeLeft : Int}
    (hcpu : Fetching (os.cpus id) timeLeft) : os.KeepsList (.cpu leftover id) := by
  intro proc left heq
  rw [heq] at hcpu
  cases hcpu

theorem keepsList_of_not_addRunning {garbage : ListEnd} {loader : Loader}
    (hloader : os.loader = loader) (hlocation : loader.location ≠ .addRunning) :
    os.KeepsList (.loader garbage) := fun heq => absurd (hloader ▸ heq) hlocation

/-! ## Moves -/

theorem Listing.load (hlisting : os.Listing) {i : Nat} {garbage : ListEnd}
    (hloader : os.loader = { location := .load, i := i }) (hi : i < config.numProcesses) :
    ({ os.setPcb i (newPcb config i) with
        mm := initMm garbage
        loader := { location := .addRunning, i := i } } : Os config.numCpus).Listing where
  owned := hlisting.owned.move (Move.load hloader hi : Move os (.loader garbage) _)
  pid proc hproc := by
    change (Function.update os.pcbs i (newPcb config i) proc).pid = _
    have hlt : proc < i + 1 := hproc
    have hloaded : os.loaded = i := congrArg Loader.loaded hloader
    by_cases hsame : proc = i
    · rw [hsame, Function.update_self]
      rfl
    · rw [Function.update_of_ne hsame]
      exact hlisting.pid proc (by omega)
  listed_admitted proc hproc := by
    have hadmitted : os.admitted = i := congrArg Loader.admitted hloader
    exact hadmitted ▸ hlisting.listed_admitted proc hproc

theorem Listing.enqueueRunning {i : Nat} (hlisting : os.Listing) (howned : next.Owned)
    (hsched : next.sched.runningList = (os.sched.enqueueRunning i).runningList)
    (hi : i < next.admitted) (hadmitted : os.admitted ≤ next.admitted)
    (hloaded : next.loaded = os.loaded) (hpcbs : next.pcbs = os.pcbs) : next.Listing where
  owned := howned
  pid proc hproc := by
    rw [hpcbs]
    exact hlisting.pid proc (hloaded ▸ hproc)
  listed_admitted proc hproc := by
    have hmem : proc ∈ (os.sched.enqueueRunning i).runningList.items := hsched ▸ hproc
    rcases ProcQueue.mem_enqueue hmem with hold | rfl
    · exact (hlisting.listed_admitted proc hold).trans_le hadmitted
    · exact hi

theorem Listing.move {event : OsEvent config.numCpus} (hlisting : os.Listing)
    (hmove : Move os event next) : next.Listing := by
  have howned := hlisting.owned.move hmove
  cases hmove with
  | load hloader hi => exact hlisting.load hloader hi
  | loaded hloader =>
      exact hlisting.congr howned (List.Perm.refl _) (congrArg Loader.admitted hloader).symm
        (congrArg Loader.loaded hloader).symm fun _ => rfl
  | @addRunning garbage i hloader =>
      have hadmitted : os.admitted = i := congrArg Loader.admitted hloader
      exact hlisting.enqueueRunning howned rfl (Nat.lt_succ_self i) (hadmitted ▸ Nat.le_succ i)
        (congrArg Loader.loaded hloader).symm rfl
  | addReady hloader hadd =>
      have hsame := Sched.runningList_enqueueReady hadd
      exact hlisting.congr howned (List.Perm.of_eq (congrArg ProcQueue.items hsame))
        (congrArg Loader.admitted hloader).symm (congrArg Loader.loaded hloader).symm fun _ => rfl
  | idle => exact hlisting
  | get => exact hlisting.congr howned (List.Perm.refl _) rfl rfl fun _ => rfl
  | getNone => exact hlisting.congr howned (List.Perm.refl _) rfl rfl fun _ => rfl
  | finish => exact hlisting.congr howned (List.Perm.refl _) rfl rfl fun _ => rfl
  | @put leftover id proc hcpu =>
      have hheld : (os.cpus id).proc = some proc := by rw [hcpu]; rfl
      have hlive := hlisting.owned.live_of_held hheld
      exact hlisting.enqueueRunning howned rfl hlive.1 (Nat.le_refl _) rfl rfl
  | pass => exact hlisting.congr howned (List.Perm.refl _) rfl rfl fun _ => rfl
  | putReady hcpu hput =>
      have hsame := Sched.runningList_enqueueReady hput
      exact hlisting.congr howned (List.Perm.of_eq (congrArg ProcQueue.items hsame)) rfl rfl
        fun _ => rfl
  | stop => exact hlisting.congr howned (List.Perm.refl _) rfl rfl fun _ => rfl
  | again => exact hlisting.congr howned (List.Perm.refl _) rfl rfl fun _ => rfl
  | runPastEnd => exact hlisting.congr howned (List.Perm.refl _) rfl rfl fun _ => rfl
  | run hcpu halive hins hexecute =>
      exact hlisting.congr howned (InstT.execute_perm hexecute) rfl rfl
        fun other => pid_advance _ other

/-- From a state that obeys the law, a move keeps it exactly under the condition. -/
theorem ListsLive.move_iff {event : OsEvent config.numCpus} (hlisting : os.Listing)
    (hlists : os.ListsLive) (hmove : Move os event next) :
    next.ListsLive ↔ os.KeepsList event := by
  cases hmove with
  | load hloader =>
      exact iff_of_true
        (hlists.congr (List.Perm.refl _) (congrArg Loader.admitted hloader).symm rfl)
        (keepsList_of_not_addRunning hloader fun heq => by cases heq)
  | loaded hloader =>
      exact iff_of_true
        (hlists.congr (List.Perm.refl _) (congrArg Loader.admitted hloader).symm rfl)
        (keepsList_of_not_addRunning hloader fun heq => by cases heq)
  | addRunning hloader =>
      rw [hlisting.addRunning_iff hlists hloader]
      unfold KeepsList
      rw [ProcQueue.size_eq, hloader]
      exact ⟨fun hroom _ => hroom, fun hkeeps => hkeeps rfl⟩
  | addReady hloader hadd =>
      have hsame := Sched.runningList_enqueueReady hadd
      exact iff_of_true
        (hlists.congr (List.Perm.of_eq (congrArg ProcQueue.items hsame))
          (congrArg Loader.admitted hloader).symm rfl)
        (keepsList_of_not_addRunning hloader fun heq => by cases heq)
  | idle hcpu =>
      exact iff_of_true hlists (keepsList_of_not_top hcpu fun _ _ heq => by cases heq)
  | get hcpu =>
      exact iff_of_true (hlists.congr (List.Perm.refl _) rfl rfl) (keepsList_of_fetching hcpu)
  | getNone hcpu =>
      exact iff_of_true (hlists.congr (List.Perm.refl _) rfl rfl) (keepsList_of_fetching hcpu)
  | finish hcpu halive hend =>
      have hlive := hlisting.owned.live_of_held (by rw [hcpu]; rfl)
      exact iff_of_false (hlists.not_finish hlive) fun hkeeps => (hkeeps _ _ hcpu).1 hend
  | put hcpu halive hpc =>
      have hlive := hlisting.owned.live_of_held (by rw [hcpu]; rfl)
      rw [hlists.put_iff hlive]
      unfold KeepsList
      rw [ProcQueue.size_eq]
      constructor
      · intro hfull proc timeLeft heq
        cases hcpu.symm.trans heq
        exact ⟨hpc, fun _ => hfull⟩
      · exact fun hkeeps => (hkeeps _ _ hcpu).2 rfl
  | pass hcpu halive hpc htime =>
      refine iff_of_true (hlists.congr (List.Perm.refl _) rfl rfl) fun proc timeLeft heq => ?_
      cases hcpu.symm.trans heq
      exact ⟨hpc, fun hzero => absurd hzero htime⟩
  | putReady hcpu hput =>
      have hsame := Sched.runningList_enqueueReady hput
      exact iff_of_true (hlists.congr (List.Perm.of_eq (congrArg ProcQueue.items hsame)) rfl rfl)
        (keepsList_of_not_top hcpu fun _ _ heq => by cases heq)
  | stop hcpu =>
      exact iff_of_true (hlists.congr (List.Perm.refl _) rfl rfl)
        (keepsList_of_not_top hcpu fun _ _ heq => by cases heq)
  | again hcpu =>
      exact iff_of_true (hlists.congr (List.Perm.refl _) rfl rfl)
        (keepsList_of_not_top hcpu fun _ _ heq => by cases heq)
  | runPastEnd hcpu =>
      exact iff_of_true (hlists.congr (List.Perm.refl _) rfl rfl)
        (keepsList_of_not_top hcpu fun _ _ heq => by cases heq)
  | run hcpu halive hins hexecute =>
      exact iff_of_true (hlists.congr (InstT.execute_perm hexecute) rfl rfl)
        (keepsList_of_not_top hcpu fun _ _ heq => by cases heq)

theorem listing_start (mm : MmStruct) (mram activeMswp : MemphyStruct) :
    (start mm mram activeMswp : Os config.numCpus).Listing where
  owned := owned_start mm mram activeMswp
  pid proc hproc := absurd hproc (Nat.not_lt_zero proc)
  listed_admitted proc hproc := by
    have hnil : proc ∈ (ProcQueue.zero : ProcQueue Nat).items := hproc
    rw [ProcQueue.items_zero] at hnil
    cases hnil

theorem listsLive_start (mm : MmStruct) (mram activeMswp : MemphyStruct) :
    (start mm mram activeMswp : Os config.numCpus).ListsLive where
  live_once proc hlive := absurd hlive.1 (Nat.not_lt_zero proc)
  not_freed proc _ hfreed := by cases hfreed

/-- The law of the running list holds in every state of a run exactly when every step of the
run meets the condition. -/
theorem runningListLaw_iff_keepsList (config : Config) (mm : MmStruct)
    (mram activeMswp : MemphyStruct) (events : List (OsEvent config.numCpus)) :
    (∀ os ∈ Runs.visited (step config) (start mm mram activeMswp) events, os.RunningListLaw) ↔
      ∀ move ∈ Runs.taken (step config) (start mm mram activeMswp) events,
        move.1.KeepsList move.2 := by
  refine Runs.visited_iff_taken Listing RunningListLaw (fun _ => True)
    (fun os event => os.KeepsList event)
    (fun _ _ _ _ hlisting hstep => hlisting.move (move_of_step hstep))
    (fun _ _ _ _ hlisting hlaw hstep => ?_) (fun _ _ => trivial)
    (listing_start mm mram activeMswp)
    ((listsLive_start mm mram activeMswp).law (listing_start mm mram activeMswp))
  have hmove := move_of_step hstep
  rw [(hlisting.move hmove).law_iff]
  exact hlaw.lists_live.move_iff hlisting hmove

/-- Two processes on one CPU: the first calculates, the second makes a system call. -/
def calcThenSyscall : Config where
  timeSlot := 2
  numCpus := 1
  numProcesses := 2
  prio _ := 0
  text proc :=
    let opcode := if proc = 0 then InsOpcode.calc else InsOpcode.syscall
    [{ opcode := opcode, arg0 := 440, arg1 := 0, arg2 := 0, arg3 := 0 }]
  numProcesses_lt := two_processes_lt
  size_lt _ := by
    rw [List.length_singleton]
    decide

/-- A schedule in which the first process ends before the second is dispatched. -/
def calcThenSyscallEvents : List (OsEvent calcThenSyscall.numCpus) :=
  let cpu : Fin calcThenSyscall.numCpus := ⟨0, by decide⟩
  [.loader .null, .loader .null, .loader .null, .cpu .zero cpu, .cpu .zero cpu, .cpu .zero cpu,
    .loader .null, .loader .null, .loader .null, .cpu .zero cpu]

/-- Once the first process has ended, the list still holds it, and the search of the second
one reads the pid of a freed process structure. -/
theorem not_runningListLaw_after_finish :
    ∃ os ∈ Runs.visited (step calcThenSyscall)
        (start (initMm .null) singleProcess.mram singleProcess.activeMswp) calcThenSyscallEvents,
      os.Live 1 ∧ findCaller os.pidOf os.krnl (os.pcbs 1).pid = .error .useAfterFree ∧
        ¬ os.RunningListLaw := by
  have hfinal : (Runs.run (step calcThenSyscall)
      (start (initMm .null) singleProcess.mram singleProcess.activeMswp)
        calcThenSyscallEvents).map (fun os => (os.admitted, os.freed, os.listed,
          match findCaller os.pidOf os.krnl (os.pcbs 1).pid with
          | .error fault => some fault
          | .ok _ => none)) =
      some (2, [0], [0, 1], some .useAfterFree) := by
    decide +kernel
  obtain ⟨os, hrun, hfields⟩ := Option.map_eq_some_iff.mp hfinal
  simp only [Prod.mk.injEq] at hfields
  obtain ⟨hadmitted, hfreed, hlisted, hsearch⟩ := hfields
  refine ⟨os, Runs.mem_visited_iff.mpr ⟨_, List.prefix_rfl, hrun⟩, ?_, ?_, fun hlaw => ?_⟩
  · unfold Live
    rw [hadmitted, hfreed]
    decide
  · split at hsearch
    next fault hfault =>
      rw [Option.some.inj hsearch] at hfault
      exact hfault
    next => cases hsearch
  · refine hlaw.lists_live.not_freed 0 ?_ ?_
    · rw [hlisted]
      exact List.mem_cons_self
    · rw [hfreed]
      exact List.mem_cons_self

end Os

end SimpleOs
