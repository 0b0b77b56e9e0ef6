import SimpleOs.Foundation.Holders
import SimpleOs.Sched.Conservation
import SimpleOs.System.Moves

/-! # Who owns a process

The simulator refines the ledger of the scheduler: what the CPUs hold and what they have
freed is what was taken from the ready queues and not put back. So every added process
waits in one ready queue, is held by one CPU, was freed, or was refused by a full queue.
-/

namespace SimpleOs

namespace Ledger

variable {Proc : Type} {prio : Proc → Nat} {transit : Option Proc} {ledger other : Ledger Proc}

/-- Only the ready queues matter of the scheduler, and of the lists only what they hold. -/
theorem Placed.congr (hplaced : Placed prio transit ledger)
    (hready : ∀ level, other.sched.ready level = ledger.sched.ready level)
    (hheld : other.held.Perm ledger.held) (hadded : other.added.Perm ledger.added)
    (hrefused : other.refused = ledger.refused) : Placed prio transit other where
  level_prio level := by rw [hready]; exact hplaced.level_prio level
  ready_nodup level := by rw [hready]; exact hplaced.ready_nodup level
  held_nodup := hheld.nodup_iff.mpr hplaced.held_nodup
  ready_not_held level proc hproc := by
    rw [hready] at hproc
    rw [hheld.mem_iff]
    exact hplaced.ready_not_held level proc hproc
  refused_nowhere proc hproc := by
    rw [hrefused] at hproc
    obtain ⟨hnotHeld, habsent⟩ := hplaced.refused_nowhere proc hproc
    refine ⟨hheld.mem_iff.not.mpr hnotHeld, fun level => ?_⟩
    rw [hready]
    exact habsent level
  transit_nowhere proc hproc := by
    obtain ⟨hnotHeld, hnotRefused, habsent⟩ := hplaced.transit_nowhere proc hproc
    refine ⟨hheld.mem_iff.not.mpr hnotHeld, hrefused ▸ hnotRefused, fun level => ?_⟩
    rw [hready]
    exact habsent level
  added_iff proc := by
    simp only [hadded.mem_iff, hheld.mem_iff, hrefused, hready]
    exact hplaced.added_iff proc
  crowded proc hproc := by
    rw [hrefused] at hproc
    rw [(hadded.filter _).length_eq]
    exact hplaced.crowded proc hproc

end Ledger

namespace Os

variable {config : Config}

/-- The processes that the CPUs hold. -/
def held (os : Os config.numCpus) : List Nat := Holders.held fun id => (os.cpus id).proc

/-- The ledger that the simulator keeps: the loader has added the processes before its
counter, and a freed process was taken and never put back. -/
def ledger (os : Os config.numCpus) (refused : List Nat) : Ledger Nat where
  sched := os.sched
  held := os.held ++ os.freed
  added := List.range os.loader.i
  refused := refused

/-- The ownership invariant. -/
structure Owned (os : Os config.numCpus) : Prop where
  placed : ∃ refused, Ledger.Placed config.prio none (os.ledger refused)
  i_le : os.loader.i ≤ config.numProcesses
  i_lt : os.loader.location = .addRunning ∨ os.loader.location = .addReady →
    os.loader.i < config.numProcesses

variable {os next : Os config.numCpus}

theorem owned_start (mm : MmStruct) (mram activeMswp : MemphyStruct) :
    (start mm mram activeMswp : Os config.numCpus).Owned where
  placed := by
    have hstart : Ledger.Placed config.prio none (Ledger.start : Ledger Nat) := Ledger.placed_start
    refine ⟨[], hstart.congr (fun _ => rfl) ?_ (List.Perm.refl _) rfl⟩
    have hnone : (start mm mram activeMswp : Os config.numCpus).held = [] := by
      unfold held Holders.held
      rw [List.filterMap_eq_nil_iff]
      exact fun _ _ => rfl
    change (held (start mm mram activeMswp) ++ []).Perm []
    rw [hnone]
    exact List.Perm.refl _
  i_le := Nat.zero_le _
  i_lt := by rintro (hload | hload) <;> cases hload

theorem held_setCpu (os : Os config.numCpus) (id : Fin config.numCpus) (cpu : Cpu) :
    (os.setCpu id cpu).held =
      Holders.held (Function.update (fun id => (os.cpus id).proc) id cpu.proc) := by
  unfold held
  congr 1
  funext other
  change (Function.update os.cpus id cpu other).proc = _
  by_cases hother : other = id
  · subst hother
    rw [Function.update_self, Function.update_self]
  · rw [Function.update_of_ne hother, Function.update_of_ne hother]

/-- What a CPU holds can be told apart from what the others hold. -/
theorem exists_held_rest (os : Os config.numCpus) (id : Fin config.numCpus) :
    ∃ rest, os.held.Perm ((os.cpus id).proc.toList ++ rest) ∧
      ∀ cpu, (os.setCpu id cpu).held.Perm (cpu.proc.toList ++ rest) := by
  obtain ⟨rest, hself, hupdate⟩ :=
    Holders.exists_rest_self (fun id => (os.cpus id).proc) id
  refine ⟨rest, hself, fun cpu => ?_⟩
  rw [held_setCpu]
  exact hupdate cpu.proc

/-- A CPU that keeps its process keeps the list as it is. -/
theorem held_setCpu_of_same (os : Os config.numCpus) {id : Fin config.numCpus} {cpu : Cpu}
    (hsame : cpu.proc = (os.cpus id).proc) : (os.setCpu id cpu).held.Perm os.held := by
  obtain ⟨rest, hself, hupdate⟩ := os.exists_held_rest id
  have hnext := hupdate cpu
  rw [hsame] at hnext
  exact hnext.trans hself.symm

theorem held_setCpu_some {id : Fin config.numCpus} {cpu : Cpu} {proc : Nat}
    (hbefore : (os.cpus id).proc = none) (hafter : cpu.proc = some proc) :
    (os.setCpu id cpu).held.Perm (proc :: os.held) := by
  obtain ⟨rest, hself, hupdate⟩ := os.exists_held_rest id
  have hnext := hupdate cpu
  rw [hafter] at hnext
  rw [hbefore] at hself
  exact hnext.trans (hself.symm.cons proc)

theorem held_setCpu_none {id : Fin config.numCpus} {cpu : Cpu} {proc : Nat}
    (hbefore : (os.cpus id).proc = some proc) (hafter : cpu.proc = none) :
    os.held.Perm (proc :: (os.setCpu id cpu).held) := by
  obtain ⟨rest, hself, hupdate⟩ := os.exists_held_rest id
  have hnext := hupdate cpu
  rw [hafter] at hnext
  rw [hbefore] at hself
  exact hself.trans (hnext.symm.cons proc)

theorem proc_of_fetching {cpu : Cpu} {timeLeft : Int} (hcpu : Fetching cpu timeLeft) :
    cpu.proc = none := by
  cases hcpu <;> rfl

/-- Steps that leave ready queues, holders and added processes alone keep the invariant. -/
theorem Owned.congr (howned : os.Owned)
    (hready : ∀ level, next.sched.ready level = os.sched.ready level)
    (hheld : next.held.Perm os.held) (hfreed : next.freed = os.freed)
    (hi : next.loader.i = os.loader.i)
    (hlt : next.loader.location = .addRunning ∨ next.loader.location = .addReady →
      next.loader.i < config.numProcesses) : next.Owned where
  placed := by
    obtain ⟨refused, hplaced⟩ := howned.placed
    refine ⟨refused, hplaced.congr hready ?_ ?_ rfl⟩
    · change (next.held ++ next.freed).Perm (os.held ++ os.freed)
      rw [hfreed]
      exact hheld.append_right _
    · change (List.range next.loader.i).Perm (List.range os.loader.i)
      rw [hi]
  i_le := hi ▸ howned.i_le
  i_lt := hlt

theorem Owned.get {id : Fin config.numCpus} {timeLeft : Int} {level : Fin maxPrio}
    {usedSlot : Int} {proc : Nat} {rest : List Nat} (howned : os.Owned)
    (hcpu : Fetching (os.cpus id) timeLeft) (hready : os.sched.ready level = proc :: rest) :
    ({ os with sched := (os.sched.dequeueAt level usedSlot).2 }.setCpu id
      (.recheck (some proc) timeLeft)).Owned where
  placed := by
    obtain ⟨refused, hplaced⟩ := howned.placed
    have hget := hplaced.get usedSlot hready
    refine ⟨refused, hget.congr (fun _ => rfl) ?_ (List.Perm.refl _) rfl⟩
    have hheld : (os.setCpu id (.recheck (some proc) timeLeft)).held.Perm (proc :: os.held) :=
      held_setCpu_some (proc_of_fetching hcpu) rfl
    exact hheld.append_right os.freed
  i_le := howned.i_le
  i_lt := howned.i_lt

theorem Owned.finish {id : Fin config.numCpus} {proc : Nat} (howned : os.Owned)
    (hcpu : (os.cpus id).proc = some proc) :
    (({ os with freed := proc :: os.freed }.mark proc .finish).setCpu id .afterFree).Owned where
  placed := by
    obtain ⟨refused, hplaced⟩ := howned.placed
    refine ⟨refused, hplaced.congr (fun _ => rfl) ?_ (List.Perm.refl _) rfl⟩
    have hheld : os.held.Perm (proc :: (os.setCpu id .afterFree).held) :=
      held_setCpu_none hcpu rfl
    -- the process goes from the first list to the second
    change ((os.setCpu id .afterFree).held ++ proc :: os.freed).Perm (os.held ++ os.freed)
    exact List.perm_middle.trans (hheld.symm.append_right os.freed)
  i_le := howned.i_le
  i_lt := howned.i_lt

theorem Owned.putReady {id : Fin config.numCpus} {proc : Nat} {timeLeft : Int}
    {sched : Sched Nat} (howned : os.Owned) (hcpu : os.cpus id = .putReady proc timeLeft)
    (hput : Sched.putMlqProc config.prio os.sched proc = .ok sched) :
    ({ os with sched := sched }.setCpu id (.afterPut timeLeft)).Owned where
  placed := by
    obtain ⟨refused, hplaced⟩ := howned.placed
    have hproc : (os.cpus id).proc = some proc := by rw [hcpu]; rfl
    have hheld : os.held.Perm (proc :: (os.setCpu id (.afterPut timeLeft)).held) :=
      held_setCpu_none hproc rfl
    have hmem : proc ∈ (os.ledger refused).held :=
      List.mem_append_left _ (hheld.mem_iff.mpr List.mem_cons_self)
    -- the two halves of `put_proc` for the ledger: the holder lets go, the queue takes it
    have hinserted := (hplaced.release hmem).insert (Sched.ready_enqueueReady hput)
    refine ⟨_, hinserted.congr (fun _ => rfl) ?_ (List.Perm.refl _) rfl⟩
    have hall := hheld.append_right os.freed
    have herased := hall.erase proc
    rw [List.cons_append, List.erase_cons_head] at herased
    exact herased.symm
  i_le := howned.i_le
  i_lt := howned.i_lt

theorem Owned.addReady {i : Nat} {sched : Sched Nat} (howned : os.Owned)
    (hloader : os.loader = { location := .addReady, i := i })
    (hadd : Sched.addMlqProc config.prio os.sched i = .ok sched) :
    ({ os with sched := sched, loader := { location := .load, i := i + 1 } } :
      Os config.numCpus).Owned where
  placed := by
    obtain ⟨refused, hplaced⟩ := howned.placed
    have hi : os.loader.i = i := by rw [hloader]
    -- the counter still names the process, so it was not added before
    have hnew : i ∉ (os.ledger refused).added := by
      change i ∉ List.range os.loader.i
      rw [hi, List.mem_range]
      exact Nat.lt_irrefl i
    have hinserted := (hplaced.add hnew).insert (Sched.ready_enqueueReady hadd)
    refine ⟨_, hinserted.congr (fun _ => rfl) (List.Perm.refl _) ?_ rfl⟩
    change (List.range (i + 1)).Perm (i :: List.range os.loader.i)
    rw [hi, List.range_succ]
    exact List.perm_append_singleton i _
  i_le := by
    have hlt := howned.i_lt (Or.inr (by rw [hloader]))
    rw [hloader] at hlt
    exact hlt
  i_lt := by rintro (hload | hload) <;> cases hload

/-- Every move keeps the invariant. -/
theorem Owned.move {event : OsEvent config.numCpus} (howned : os.Owned)
    (hmove : Move os event next) : next.Owned := by
  cases hmove with
  | load hloader hi =>
      exact howned.congr (fun _ => rfl) (List.Perm.refl _) rfl (by rw [hloader]) (fun _ => hi)
  | loaded hloader =>
      refine howned.congr (fun _ => rfl) (List.Perm.refl _) rfl (by rw [hloader]) ?_
      rintro (hload | hload) <;> cases hload
  | addRunning hloader =>
      have hlt := howned.i_lt (Or.inl (by rw [hloader]))
      rw [hloader] at hlt
      exact howned.congr (fun _ => rfl) (List.Perm.refl _) rfl (by rw [hloader]) (fun _ => hlt)
  | addReady hloader hadd => exact howned.addReady hloader hadd
  | idle => exact howned
  | get hcpu hready => exact howned.get hcpu hready
  | getNone hcpu =>
      exact howned.congr (fun _ => rfl) (held_setCpu_of_same os (proc_of_fetching hcpu).symm)
        rfl rfl howned.i_lt
  | finish hcpu => exact howned.finish (by rw [hcpu]; rfl)
  | put hcpu =>
      exact howned.congr (fun _ => rfl) (held_setCpu_of_same os (by rw [hcpu]; rfl)) rfl rfl
        howned.i_lt
  | pass hcpu =>
      exact howned.congr (fun _ => rfl) (held_setCpu_of_same os (by rw [hcpu]; rfl)) rfl rfl
        howned.i_lt
  | putReady hcpu hput => exact howned.putReady hcpu hput
  | stop hcpu =>
      exact howned.congr (fun _ => rfl) (held_setCpu_of_same os (by rw [hcpu]; rfl)) rfl rfl
        howned.i_lt
  | again hcpu =>
      exact howned.congr (fun _ => rfl) (held_setCpu_of_same os (by rw [hcpu]; rfl)) rfl rfl
        howned.i_lt
  | runPastEnd hcpu =>
      exact howned.congr (fun _ => rfl) (held_setCpu_of_same os (by rw [hcpu]; rfl)) rfl rfl
        howned.i_lt
  | run hcpu =>
      exact howned.congr (fun _ => rfl) (held_setCpu_of_same os (by rw [hcpu]; rfl)) rfl rfl
        howned.i_lt

/-! ## Consequences -/

theorem mem_held {os : Os config.numCpus} {proc : Nat} :
    proc ∈ os.held ↔ ∃ id, (os.cpus id).proc = some proc := Holders.mem_held

/-- Two CPUs never hold one process. -/
theorem Owned.holder_unique (howned : os.Owned) {id other : Fin config.numCpus} {proc : Nat}
    (hid : (os.cpus id).proc = some proc) (hother : (os.cpus other).proc = some proc) :
    id = other := by
  obtain ⟨refused, hplaced⟩ := howned.placed
  exact Holders.eq_of_nodup (List.nodup_append.mp hplaced.held_nodup).1 hid hother

theorem Owned.added_of_held (howned : os.Owned) {proc : Nat}
    (hheld : proc ∈ os.held ∨ proc ∈ os.freed) : proc < os.loader.i := by
  obtain ⟨refused, hplaced⟩ := howned.placed
  have hmem : proc ∈ (os.ledger refused).held := List.mem_append.mpr hheld
  exact List.mem_range.mp ((hplaced.added_iff proc).mpr (Or.inr (Or.inl hmem)))

theorem Owned.added_of_ready (howned : os.Owned) {proc : Nat} {level : Fin maxPrio}
    (hready : proc ∈ os.sched.ready level) : proc < os.loader.i := by
  obtain ⟨refused, hplaced⟩ := howned.placed
  exact List.mem_range.mp ((hplaced.added_iff proc).mpr (Or.inl ⟨level, hready⟩))

/-- A held process was not freed, and neither was a waiting one, which nobody holds. -/
theorem Owned.alive_of_held (howned : os.Owned) {proc : Nat} (hheld : proc ∈ os.held) :
    proc ∉ os.freed := by
  obtain ⟨refused, hplaced⟩ := howned.placed
  exact (List.nodup_append.mp hplaced.held_nodup).2.2 proc hheld |> fun hne hfreed =>
    hne proc hfreed rfl

theorem Owned.not_held_of_ready (howned : os.Owned) {proc : Nat} {level : Fin maxPrio}
    (hready : proc ∈ os.sched.ready level) : proc ∉ os.held ∧ proc ∉ os.freed := by
  obtain ⟨refused, hplaced⟩ := howned.placed
  have hnot := hplaced.ready_not_held level proc hready
  exact ⟨fun hheld => hnot (List.mem_append_left _ hheld),
    fun hfreed => hnot (List.mem_append_right _ hfreed)⟩

end Os

end SimpleOs
