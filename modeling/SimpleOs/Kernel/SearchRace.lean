import SimpleOs.Foundation.Runs
import SimpleOs.Kernel.CallerSearch

/-! # The search for the caller beside other CPUs

The search holds the `queue_lock` of `sys_mem.c`, and `put_proc` and `add_proc` hold the
one of `sched.c`, so they can append to `running_list` between any two steps of the
search. Searches exclude each other. Between taking an entry from the front and putting it
back, the search has it in hand, and a list that was filled up meanwhile does not take it.
-/

namespace SimpleOs

variable {Proc : Type}

/-- Where the CPU with the system call stands in its search, with the number of entries
that are still to be looked at. -/
inductive SearchPhase (Proc : Type) where
  | idle
  | looking (pid : Word32) (left : Nat)
  | holding (pid : Word32) (left : Nat) (proc : Proc)
  deriving DecidableEq

/-- The running list and the search in it. -/
structure SharedList (Proc : Type) where
  list : ProcQueue Proc
  phase : SearchPhase Proc

/-- The steps of the search, and an append by another CPU. -/
inductive ListEvent (Proc : Type) where
  | lock (pid : Word32)
  | take
  | putBack
  | unlock
  | putProc (proc : Proc)
  deriving DecidableEq

namespace SharedList

/-- One step. The loop ends when no entry is left to look at or the last one was the
caller. -/
def step (pidOf : Proc → Except Fault Word32) (shared : SharedList Proc) :
    ListEvent Proc → Option (SharedList Proc)
  | .lock pid =>
      match shared.phase with
      | .idle => some { shared with phase := .looking pid shared.list.size }
      | _ => none
  | .take =>
      match shared.phase with
      | .looking pid (left + 1) =>
          match shared.list.dequeue with
          | (none, list) => some { list := list, phase := .looking pid left }
          | (some proc, list) => some { list := list, phase := .holding pid left proc }
      | _ => none
  | .putBack =>
      match shared.phase with
      | .holding pid left proc =>
          (pidOf proc).toOption.map fun procPid =>
            { list := shared.list.enqueue proc
              phase := .looking pid (if procPid = pid then 0 else left) }
      | _ => none
  | .unlock =>
      match shared.phase with
      | .looking _ 0 => some { shared with phase := .idle }
      | _ => none
  | .putProc proc => some { shared with list := shared.list.enqueue proc }

/-- The process is in the list, or in the hand of the search. -/
def Present (shared : SharedList Proc) (proc : Proc) : Prop :=
  proc ∈ shared.list.items ∨ ∃ pid left, shared.phase = .holding pid left proc

/-- Nobody of the initial list is lost. -/
def KeepsAll (initial : ProcQueue Proc) (shared : SharedList Proc) : Prop :=
  ∀ proc ∈ initial.items, shared.Present proc

/-- The condition on one step, in the state before it: where the search puts an initial
process back, the list has room or another entry of the process. -/
def HasRoom (initial : ProcQueue Proc) (shared : SharedList Proc) : ListEvent Proc → Prop
  | .putBack => ∀ pid left proc, shared.phase = .holding pid left proc →
      proc ∈ initial.items → shared.list.size < maxQueueSize ∨ proc ∈ shared.list.items
  | _ => True

variable {pidOf : Proc → Except Fault Word32} {initial : ProcQueue Proc}
  {shared next : SharedList Proc} {event : ListEvent Proc}

/-! ## One step -/

/-- Appending removes nothing, and adds the process if there is room. -/
theorem mem_enqueue_iff {list : ProcQueue Proc} {proc other : Proc} :
    other ∈ (list.enqueue proc).items ↔
      other ∈ list.items ∨ (other = proc ∧ list.size < maxQueueSize) := by
  rw [ProcQueue.items_enqueue, ProcQueue.size_eq]
  split
  next hroom => rw [List.mem_append, List.mem_singleton, and_iff_left hroom]
  next hfull => exact ⟨Or.inl, fun hmem => hmem.resolve_right fun hnew => hfull hnew.2⟩

/-- Outside the search nothing is in hand. -/
theorem mem_of_present {proc : Proc} (hpresent : shared.Present proc)
    (hhand : ∀ pid left other, shared.phase ≠ .holding pid left other) :
    proc ∈ shared.list.items :=
  hpresent.resolve_right fun ⟨pid, left, hheld⟩ => hhand pid left proc hheld

/-- A step that leaves the list as it is, with nothing in hand before it. -/
theorem KeepsAll.of_list_eq (hkeeps : shared.KeepsAll initial)
    (hhand : ∀ pid left proc, shared.phase ≠ .holding pid left proc)
    (hlist : next.list = shared.list) : next.KeepsAll initial := by
  intro proc hproc
  refine Or.inl ?_
  rw [hlist]
  exact mem_of_present (hkeeps proc hproc) hhand

/-- Taking an entry moves it to the hand. -/
theorem KeepsAll.take {list : ProcQueue Proc} {pid : Word32} {left : Nat}
    (hkeeps : KeepsAll initial { list := list, phase := .looking pid (left + 1) })
    (hstep : step pidOf { list := list, phase := .looking pid (left + 1) } .take = some next) :
    next.KeepsAll initial := by
  intro proc hproc
  have hlisted : proc ∈ list.items :=
    mem_of_present (hkeeps proc hproc) fun _ _ _ hheld => by cases hheld
  have hfront := ProcQueue.dequeue_fst list
  have hrest := ProcQueue.items_dequeue list
  simp only [step] at hstep
  rcases hdequeue : list.dequeue with ⟨_ | front, rest⟩
  · rw [hdequeue] at hfront
    rw [List.head?_eq_none_iff.mp hfront.symm] at hlisted
    cases hlisted
  · rw [hdequeue] at hfront hrest hstep
    cases hstep
    rw [List.eq_cons_of_mem_head? hfront.symm] at hlisted
    rcases List.mem_cons.mp hlisted with rfl | htail
    · exact Or.inr ⟨pid, left, rfl⟩
    · exact Or.inl (hrest.symm ▸ htail)

/-- Putting the entry in hand back loses nobody exactly when its process stays listed. -/
theorem keepsAll_putBack_iff {list : ProcQueue Proc} {pid : Word32} {left : Nat} {proc : Proc}
    (hkeeps : KeepsAll initial { list := list, phase := .holding pid left proc })
    (hstep : step pidOf { list := list, phase := .holding pid left proc } .putBack = some next) :
    next.KeepsAll initial ↔
      (proc ∈ initial.items → list.size < maxQueueSize ∨ proc ∈ list.items) := by
  obtain ⟨procPid, -, rfl⟩ := Option.map_eq_some_iff.mp hstep
  constructor
  · intro hnext hproc
    have hlisted := mem_of_present (hnext proc hproc) fun _ _ _ hheld => by cases hheld
    exact (mem_enqueue_iff.mp hlisted).symm.imp And.right id
  · intro hroom other hother
    refine Or.inl (mem_enqueue_iff.mpr ?_)
    rcases hkeeps other hother with hlisted | ⟨_, _, hheld⟩
    · exact Or.inl hlisted
    · cases hheld
      exact (hroom hother).symm.imp id fun hlt => ⟨rfl, hlt⟩

/-- Only putting an entry back can lose a process, and only when the condition fails. -/
theorem keepsAll_step_iff (hkeeps : shared.KeepsAll initial)
    (hstep : shared.step pidOf event = some next) :
    next.KeepsAll initial ↔ shared.HasRoom initial event := by
  obtain ⟨list, phase⟩ := shared
  cases event with
  | lock pid =>
      cases phase with
      | idle =>
          cases hstep
          exact iff_of_true (hkeeps.of_list_eq (fun _ _ _ hheld => by cases hheld) rfl) trivial
      | looking _ _ => cases hstep
      | holding _ _ _ => cases hstep
  | take =>
      cases phase with
      | idle => cases hstep
      | looking pid left =>
          cases left with
          | zero => cases hstep
          | succ left => exact iff_of_true (hkeeps.take hstep) trivial
      | holding _ _ _ => cases hstep
  | putBack =>
      cases phase with
      | idle => cases hstep
      | looking _ _ => cases hstep
      | holding pid left proc =>
          rw [keepsAll_putBack_iff hkeeps hstep]
          constructor
          · rintro hroom _ _ _ ⟨⟩
            exact hroom
          · exact fun hroom => hroom pid left proc rfl
  | unlock =>
      cases phase with
      | idle => cases hstep
      | looking pid left =>
          cases left with
          | zero =>
              cases hstep
              exact iff_of_true (hkeeps.of_list_eq (fun _ _ _ hheld => by cases hheld) rfl)
                trivial
          | succ left => cases hstep
      | holding _ _ _ => cases hstep
  | putProc added =>
      cases hstep
      refine iff_of_true (fun proc hproc => ?_) trivial
      exact (hkeeps proc hproc).imp (fun hlisted => mem_enqueue_iff.mpr (Or.inl hlisted)) id

/-! ## The search alone -/

/-- Undisturbed, the steps of the loop make the search of `searchPid`. -/
theorem run_search {pid : Word32} {count : Nat} {list after : ProcQueue Proc}
    {caller : Option Proc} (hsearch : searchPid pidOf pid count list = .ok (caller, after)) :
    ∃ events : List (ListEvent Proc), (∀ proc, ListEvent.putProc proc ∉ events) ∧
      Runs.run (step pidOf) { list := list, phase := .looking pid count } events =
        some { list := after, phase := .looking pid 0 } := by
  induction count generalizing list with
  | zero =>
      cases hsearch
      exact ⟨[], fun _ => List.not_mem_nil, rfl⟩
  | succ count ih =>
      rw [searchPid] at hsearch
      rcases hdequeue : list.dequeue with ⟨_ | proc, rest⟩
      · rw [hdequeue] at hsearch
        obtain ⟨events, honly, hrun⟩ := ih hsearch
        refine ⟨.take :: events, fun proc hmem => ?_, ?_⟩
        · exact honly proc ((List.mem_cons.mp hmem).resolve_left fun heq => by cases heq)
        · simp only [Runs.run_cons, step, hdequeue, Option.bind_some]
          exact hrun
      · rw [hdequeue] at hsearch
        obtain ⟨procPid, hpid, hrest⟩ := bind_eq_ok.mp hsearch
        have hback : Runs.run (step pidOf) { list := list, phase := .looking pid (count + 1) }
            [.take, .putBack] =
              some { list := rest.enqueue proc
                     phase := .looking pid (if procPid = pid then 0 else count) } := by
          simp only [Runs.run_cons, step, hdequeue, Option.bind_some, hpid]
          rfl
        split at hrest
        next hfound =>
          cases hrest
          rw [if_pos hfound] at hback
          exact ⟨[.take, .putBack], by simp, hback⟩
        next hother =>
          rw [if_neg hother] at hback
          obtain ⟨events, honly, hrun⟩ := ih hrest
          refine ⟨[.take, .putBack] ++ events, by simpa using honly, ?_⟩
          rw [Runs.run_append, hback, Option.bind_some]
          exact hrun

/-- The whole search, from lock to unlock, on a CPU that runs alone. -/
theorem run_findCaller {krnl after : Krnl Proc} {pid : Word32} {caller : Option Proc}
    (hfind : findCaller pidOf krnl pid = .ok (caller, after)) :
    ∃ events : List (ListEvent Proc), (∀ proc, ListEvent.putProc proc ∉ events) ∧
      Runs.run (step pidOf) { list := krnl.runningList, phase := .idle } events =
        some { list := after.runningList, phase := .idle } := by
  obtain ⟨⟨found, list⟩, hsearch, hresult⟩ := map_eq_ok.mp hfind
  cases hresult
  obtain ⟨events, honly, hrun⟩ := run_search hsearch
  refine ⟨.lock pid :: (events ++ [.unlock]), by simpa using honly, ?_⟩
  rw [Runs.run_cons]
  exact Runs.run_snoc hrun rfl

/-! ## Interleavings -/

/-- No process is lost in any state of an interleaving exactly when each entry is put back
into a list that has room for it, or another entry of the same process. Then all initial
processes are listed whenever no search is under way. -/
theorem keepsAll_iff_hasRoom (pidOf : Proc → Except Fault Word32) (initial : ProcQueue Proc)
    (events : List (ListEvent Proc)) :
    ((∀ shared ∈ Runs.visited (step pidOf) { list := initial, phase := .idle } events,
        shared.KeepsAll initial) ↔
      ∀ move ∈ Runs.taken (step pidOf) { list := initial, phase := .idle } events,
        move.1.HasRoom initial move.2) ∧
    ((∀ move ∈ Runs.taken (step pidOf) { list := initial, phase := .idle } events,
        move.1.HasRoom initial move.2) →
      ∀ shared ∈ Runs.visited (step pidOf) { list := initial, phase := .idle } events,
        shared.phase = .idle → ∀ proc ∈ initial.items, proc ∈ shared.list.items) := by
  have hiff : (∀ shared ∈ Runs.visited (step pidOf) { list := initial, phase := .idle } events,
        shared.KeepsAll initial) ↔
      ∀ move ∈ Runs.taken (step pidOf) { list := initial, phase := .idle } events,
        move.1.HasRoom initial move.2 :=
    Runs.visited_iff_taken (fun _ => True) (KeepsAll initial) (fun _ => True)
      (fun shared event => shared.HasRoom initial event) (fun _ _ _ _ _ _ => trivial)
      (fun _ _ _ _ _ hkeeps hstep => keepsAll_step_iff hkeeps hstep) (fun _ _ => trivial)
      trivial (fun _ hproc => Or.inl hproc)
  refine ⟨hiff, fun hroom shared hshared hidle proc hproc => ?_⟩
  refine mem_of_present (hiff.mpr hroom shared hshared proc hproc) fun _ _ _ hheld => ?_
  rw [hidle] at hheld
  cases hheld

/-- A running list filled up to its last slot. -/
def fullList : ProcQueue Nat := (List.range maxQueueSize).foldl ProcQueue.enqueue ProcQueue.zero

/-- The search takes the process at the front of a full list, another CPU appends a process,
and the list no longer takes the first one back. -/
theorem vanishes_from_full_list :
    ∃ final, Runs.run (step fun proc => .ok (BitVec.ofNat 32 proc))
        { list := fullList, phase := .idle }
        [.lock 0, .take, .putProc 1, .putBack, .unlock] = some final ∧
      final.phase = .idle ∧ 0 ∈ fullList.items ∧ 0 ∉ final.list.items := by
  have hcompletes : (Runs.run (step fun proc => .ok (BitVec.ofNat 32 proc))
      { list := fullList, phase := .idle } [.lock 0, .take, .putProc 1, .putBack, .unlock]).map
        (fun final => (final.phase, final.list.items)) =
          some (.idle, List.range' 1 49 ++ [1]) := by
    decide +kernel
  obtain ⟨final, hrun, hpair⟩ := Option.map_eq_some_iff.mp hcompletes
  obtain ⟨hphase, hitems⟩ := Prod.mk.inj hpair
  have habsent : 0 ∉ final.list.items := by
    rw [hitems]
    simp [List.mem_range'_1]
  exact ⟨final, hrun, hphase, by decide +kernel, habsent⟩

end SharedList

end SimpleOs
