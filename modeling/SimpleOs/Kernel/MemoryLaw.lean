import SimpleOs.Kernel.LibCall

/-! # The memory law of one process

What the library promises a process that runs alone is a store of variables: a read of a
live register delivers the byte last written there. The store is kept beside a run of
library calls, and the law is compared with what `libread` delivers in the state reached.
-/

namespace SimpleOs

variable {Proc : Type}

/-- A live register: its allocated size, and the bytes written since, by offset. -/
structure StoredVariable where
  size : Addr
  bytes : Addr → Option Byte

/-- The variables of a process, by register. -/
abbrev VariableStore : Type := Fin pagingMaxSymtblSz → Option StoredVariable

/-- The byte owed to a read of a register at an offset. -/
def VariableStore.owed (store : VariableStore) (index : Fin pagingMaxSymtblSz) (offset : Addr) :
    Option Byte :=
  (store index).bind fun stored =>
    if offset < stored.size then stored.bytes offset else none

/-- In every case, whatever the unassigned local variable of `libread` holds, the read
returns 0 and delivers the byte. -/
def Krnl.Delivers (krnl : Krnl Proc) (index : Fin pagingMaxSymtblSz) (offset : Addr)
    (data : Byte) : Prop :=
  ∀ junk, ∃ destination after,
    libread junk krnl (BitVec.ofNat 32 index.val) offset = .ok (0, destination, after) ∧
      destination.setWidth 8 = data

/-- The memory law in one state: every byte that is owed is delivered. -/
def Krnl.MemoryLaw (krnl : Krnl Proc) (store : VariableStore) : Prop :=
  ∀ index offset data, store.owed index offset = some data → krnl.Delivers index offset data

namespace LibCall

/-- A call of the process, with the byte that its unassigned local variables hold. -/
def step (pidOf : Proc → Except Fault Word32) (pid : Word32) (krnl : Krnl Proc)
    (event : Byte × LibCall) : Option (Krnl Proc) :=
  (event.2.call pidOf event.1 krnl pid).toOption.map Prod.snd

/-- What a call means for the variables of its process. -/
def record (store : VariableStore) : LibCall → VariableStore
  | alloc size regIndex =>
      match register regIndex.toInt with
      | none => store
      | some index => Function.update store index (some { size := size, bytes := fun _ => none })
  | free regIndex =>
      match register regIndex.toInt with
      | none => store
      | some index => Function.update store index none
  | read _ _ => store
  | write data destination offset =>
      match register destination.toInt with
      | none => store
      | some index =>
          Function.update store index ((store index).map fun stored =>
            { stored with bytes := Function.update stored.bytes offset (some data) })

/-- The store after a sequence of calls. -/
def recorded (events : List (Byte × LibCall)) : VariableStore :=
  events.foldl (fun store event => event.2.record store) fun _ => none

variable {pidOf : Proc → Except Fault Word32} {pid : Word32} {krnl next : Krnl Proc}

theorem step_spec {event : Byte × LibCall} (hmm : krnl.mm.Unmapped)
    (hstep : step pidOf pid krnl event = some next) :
    next.mm.Unmapped ∧ event.2.effect krnl.mm.regions = some next.mm.regions := by
  obtain ⟨⟨status, after⟩, hcall, rfl⟩ := Option.map_eq_some_iff.mp hstep
  exact call_spec hmm (Runs.toOption_eq_some_iff.mp hcall)

/-- However a process uses the library, none of its pages is ever mapped. -/
theorem run_unmapped {events : List (Byte × LibCall)} (hmm : krnl.mm.Unmapped)
    (hrun : Runs.run (step pidOf pid) krnl events = some next) : next.mm.Unmapped :=
  Runs.run_invariant (fun krnl => krnl.mm.Unmapped) (fun _ => True)
    (fun _ _ _ _ hform hstep => (step_spec hform hstep).1) (fun _ _ => trivial) hmm hrun

theorem toInt_ofNat_register (index : Fin pagingMaxSymtblSz) :
    (BitVec.ofNat 32 index.val).toInt = index.val := by
  have hlt : index.val < 30 := index.isLt
  rw [BitVec.toInt_eq_toNat_of_lt (by rw [BitVec.toNat_ofNat]; omega), BitVec.toNat_ofNat]
  omega

/-- Narrowing undoes the widening of a `char`. -/
theorem setWidth_signExtend (value : Byte) : (value.signExtend 32).setWidth 8 = value := by
  apply BitVec.eq_of_getLsbD_eq
  intro bit hbit
  rw [BitVec.getLsbD_setWidth, BitVec.getLsbD_signExtend]
  simp [hbit, show bit < 32 by omega]

theorem complement_ne_self (data : Byte) : ~~~data ≠ data := by
  intro heq
  have hbit := congrArg (fun value : Byte => value.getLsbD 0) heq
  simp at hbit

/-- Without a mapped page no byte is delivered reliably. -/
theorem not_delivers_of_unmapped (hmm : krnl.mm.Unmapped) (index : Fin pagingMaxSymtblSz)
    (offset : Addr) (data : Byte) : ¬ krnl.Delivers index offset data := by
  intro hdelivers
  have hend : (BitVec.ofNat 32 index.val).toInt ≠ pagingMaxSymtblSz := by
    have hlt := index.isLt
    rw [toInt_ofNat_register]
    omega
  -- the delivered byte is the complement of the right one where the variable holds that
  obtain ⟨destination, after, hread, hbyte⟩ := hdelivers (~~~data)
  obtain ⟨status, left, hjunk, -, -⟩ := libread_of_unmapped hmm hend (~~~data) offset
  cases hjunk.symm.trans hread
  rw [setWidth_signExtend] at hbyte
  exact complement_ne_self data hbyte

/-- After any calls of a process that runs alone, the memory law holds exactly when no
read is owed a byte. -/
theorem memoryLaw_iff_nothing_owed (pidOf : Proc → Except Fault Word32) (pid : Word32)
    (boot : Krnl Proc) (garbage : ListEnd) {events : List (Byte × LibCall)} {krnl : Krnl Proc}
    (hrun : Runs.run (step pidOf pid) (boot.initMm garbage) events = some krnl) :
    krnl.MemoryLaw (recorded events) ↔
      ∀ index offset, (recorded events).owed index offset = none := by
  have hmm := run_unmapped (MmStruct.unmapped_initMm garbage) hrun
  constructor
  · intro hlaw index offset
    cases howed : (recorded events).owed index offset with
    | none => rfl
    | some data =>
        exact absurd (hlaw index offset data howed) (not_delivers_of_unmapped hmm index offset data)
  · intro hnothing index offset data howed
    rw [hnothing index offset] at howed
    cases howed

/-- A process that allocates 100 bytes and frees them again is owed nothing. -/
theorem memoryLaw_iff_nothing_owed_alloc_free :
    ∃ krnl, Runs.run (step (fun _ => .ok 1) 1) (singleProcess.initMm .null)
        [(0, alloc 100 0), (0, free 0)] = some krnl ∧
      (krnl.MemoryLaw (recorded [(0, alloc 100 0), (0, free 0)]) ↔
        ∀ index offset, (recorded [(0, alloc 100 0), (0, free 0)]).owed index offset = none) := by
  have hcompletes : (Runs.run (step (fun _ => .ok 1) 1) (singleProcess.initMm .null)
      [(0, alloc 100 0), (0, free 0)]).isSome = true := by
    decide +kernel
  obtain ⟨krnl, hrun⟩ := Option.isSome_iff_exists.mp hcompletes
  exact ⟨krnl, hrun, memoryLaw_iff_nothing_owed _ _ _ _ hrun⟩

/-- After the allocation of 100 bytes and a write of 7 at offset 3, a read at offset 3 is
owed the 7 and returns 0, but delivers what its local variable held. -/
theorem not_memoryLaw_write_read :
    ∃ krnl, Runs.run (step (fun _ => .ok 1) 1) (singleProcess.initMm .null)
        [(0, alloc 100 0), (0, write 7 0 3)] = some krnl ∧
      (recorded [(0, alloc 100 0), (0, write 7 0 3)]).owed 0 3 = some 7 ∧
      (libread 5 krnl 0 3).toOption.map (fun result => (result.1, result.2.1)) = some (0, 5) ∧
      ¬ krnl.MemoryLaw (recorded [(0, alloc 100 0), (0, write 7 0 3)]) := by
  have hread : (Runs.run (step (fun _ => .ok 1) 1) (singleProcess.initMm .null)
      [(0, alloc 100 0), (0, write 7 0 3)]).map (fun krnl =>
        (libread 5 krnl 0 3).toOption.map (fun result => (result.1, result.2.1))) =
          some (some (0, 5)) := by
    decide +kernel
  have howed : (recorded [(0, alloc 100 0), (0, write 7 0 3)]).owed 0 3 = some 7 := by
    decide +kernel
  obtain ⟨krnl, hrun, hresult⟩ := Option.map_eq_some_iff.mp hread
  refine ⟨krnl, hrun, howed, hresult, fun hlaw => ?_⟩
  obtain ⟨destination, after, hdelivered, hbyte⟩ := hlaw 0 3 7 howed 5
  rw [show libread 5 krnl 0 3 = libread 5 krnl (BitVec.ofNat 32 (0 : Fin pagingMaxSymtblSz).val) 3
    from rfl, hdelivered] at hresult
  obtain ⟨-, rfl⟩ := Prod.mk.inj (Option.some.inj hresult)
  exact absurd hbyte (by decide)

end LibCall

end SimpleOs
