import SimpleOs.Foundation.Runs
import SimpleOs.Kernel.AccessStatus
import SimpleOs.Kernel.SwapOut
import SimpleOs.System.Cpu

/-! # What an instruction delivers

`run` copies the instruction that it executes, and the destination that it hands to `libread`
is a field of that copy. The copy is gone when `run` returns, so no instruction ever changes
a register: a `READ` is right only where it fails, or where its register held the byte before.
-/

namespace SimpleOs

variable {Proc : Type}

/-- The fields of `struct pcb_t` that `run` uses. `code->size` is a 32-bit counter. -/
structure RunProc (Proc : Type) extends PagingProc Proc where
  pid : Word32
  code : List InstT
  pc : Word32
  size_lt : code.length < 2 ^ 32

namespace InstT

/-- A store through `(uint32_t*) &ins.arg_2`, which reaches the low half of the field. -/
def deliver (ins : InstT) (value : Word32) : InstT :=
  { ins with arg2 := ((ins.arg2 >>> 32) <<< 32) ||| value.setWidth 64 }

/-- The `switch` of `run` with its local copy of the instruction, in which a `READ` leaves
what it delivers. -/
def executeCopy (pidOf : Proc → Except Fault Word32) (junk : Byte) (krnl : Krnl Proc)
    (pid : Word32) (ins : InstT) : Except Fault (Int × InstT × Krnl Proc) :=
  match ins.opcode with
  | .read => do
      let (stat, value, krnl) ← libread junk krnl (ins.arg0.setWidth 32) ins.arg1
      return (stat, ins.deliver value, krnl)
  | _ => (ins.execute pidOf junk krnl pid).map fun (stat, krnl) => (stat, ins, krnl)

/-- Without the copy it is the `switch` that the simulator takes. -/
theorem executeCopy_map (pidOf : Proc → Except Fault Word32) (junk : Byte) (krnl : Krnl Proc)
    (pid : Word32) (ins : InstT) :
    (ins.executeCopy pidOf junk krnl pid).map (fun (stat, _, krnl) => (stat, krnl)) =
      ins.execute pidOf junk krnl pid := by
  unfold executeCopy
  split
  next hread =>
    simp only [execute, hread, LibCall.call]
    cases libread junk krnl (ins.arg0.setWidth 32) ins.arg1 <;> rfl
  next => cases ins.execute pidOf junk krnl pid <;> rfl

end InstT

namespace RunProc

/-- `run`: `stat`, and the process afterwards. -/
def run (pidOf : Proc → Except Fault Word32) (junk : Byte) (proc : RunProc Proc) :
    Except Fault (Int × RunProc Proc) :=
  match proc.code[proc.pc.toNat]? with
  | none => .ok (1, proc)
  | some ins => do
      let proc := { proc with pc := proc.pc + 1 }
      let (stat, _, krnl) ← ins.executeCopy pidOf junk proc.krnl proc.pid
      return (stat, { proc with krnl := krnl })

/-- One `run` after the other. The event is what the local variable of `libread` holds. -/
def step (pidOf : Proc → Except Fault Word32) (proc : RunProc Proc) (junk : Byte) :
    Option (RunProc Proc) :=
  (proc.run pidOf junk).toOption.map Prod.snd

/-- The byte that a `READ` gets from RAM: its source is an allocated region, its offset is
inside, and the access of the address succeeds. -/
def Obtains (proc : RunProc Proc) (ins : InstT) (byte : Byte) : Prop :=
  ∃ rgid, register (ins.arg0.setWidth 32).toInt = some rgid ∧
    proc.krnl.ReachesRead rgid ins.arg1 ∧
    proc.krnl.Fetches (proc.krnl.accessAddr rgid ins.arg1) byte

/-- What `run` owes a process whose next instruction is a `READ`. A byte is assigned to a
register as everywhere else, by conversion of a `char`. -/
structure Delivers (pidOf : Proc → Except Fault Word32) (junk : Byte) (proc : RunProc Proc)
    (ins : InstT) (hdestination : ins.arg2.toNat < numRegs) : Prop where
  success : ∀ after, proc.run pidOf junk = .ok (0, after) → ∃ byte, proc.Obtains ins byte ∧
    after.regs = Function.update proc.regs ⟨ins.arg2.toNat, hdestination⟩ (byte.signExtend 64) ∧
    after.code = proc.code ∧ after.pc.toNat = proc.pc.toNat + 1
  failure : ∀ status after, status ≠ 0 → proc.run pidOf junk = .ok (status, after) →
    after.regs = proc.regs

end RunProc

/-! ## When `libread` returns 0 -/

/-- Printing the table is the last thing that a library call does. -/
theorem exists_dumpPgtbl_iff (krnl : Krnl Proc) :
    (∃ after, dumpPgtbl krnl = .ok after) ↔ krnl.mm.Prints := by
  rw [← MmStruct.exists_printPgtbl_iff]
  constructor
  · rintro ⟨after, hdump⟩
    obtain ⟨mm, hprint, -⟩ := map_eq_ok.mp hdump
    exact ⟨mm, hprint⟩
  · rintro ⟨mm, hprint⟩
    exact ⟨{ krnl with mm := mm }, map_eq_ok.mpr ⟨mm, hprint, rfl⟩⟩

namespace Krnl

variable {krnl after : Krnl Proc} {junk : Byte} {source : Word32} {offset : Addr}

theorem eq_ofNat_of_register {rgid : Fin pagingMaxSymtblSz}
    (hregister : register source.toInt = some rgid) : source = BitVec.ofNat 32 rgid.val := by
  apply BitVec.eq_of_toInt_eq
  rw [LibCall.toInt_ofNat_register, register_eq_some hregister]

/-- Only the registers of the table can be read with success. -/
theorem register_of_libread {destination : Word32}
    (hread : libread junk krnl source offset = .ok (0, destination, after)) :
    ∃ rgid, register source.toInt = some rgid := by
  obtain ⟨⟨status, data, found⟩, hbyte, hrest⟩ := bind_eq_ok.mp hread
  obtain ⟨printed, -, htriple⟩ := bind_eq_ok.mp hrest
  cases htriple
  unfold readByte at hbyte
  cases hpointer : MmStruct.getSymrgByid source.toInt with
  | none =>
      rw [hpointer] at hbyte
      cases hbyte
  | some pointer =>
      refine getSymrgByid_eq_some hpointer fun hend => ?_
      rw [hpointer, hend] at hbyte
      cases hbyte

/-- An access that gets through the guard is a success, also when it fails. -/
theorem libread_succeeds_iff :
    (∃ destination after, libread junk krnl source offset = .ok (0, destination, after)) ↔
      ∃ rgid, register source.toInt = some rgid ∧ krnl.ReachesRead rgid offset ∧
        krnl.mm.Prints ∧ (krnl.AccessFails (krnl.accessAddr rgid offset) ∨
          ∃ byte, krnl.Fetches (krnl.accessAddr rgid offset) byte) := by
  constructor
  · rintro ⟨destination, after, hread⟩
    obtain ⟨rgid, hregister⟩ := register_of_libread hread
    refine ⟨rgid, hregister, ?_⟩
    rw [eq_ofNat_of_register hregister] at hread
    by_cases hreaches : krnl.ReachesRead rgid offset
    · rw [libread_of_reaches junk hreaches] at hread
      obtain ⟨⟨data, found⟩, hget, hread⟩ := bind_eq_ok.mp hread
      obtain ⟨printed, hdump, -⟩ := map_eq_ok.mp hread
      have hprints := (exists_dumpPgtbl_iff found).mp ⟨printed, hdump⟩
      have hcase := getvalCase krnl (krnl.accessAddr rgid offset)
      rw [hget] at hcase
      cases hcase with
      | @fetched byte _ hfetches hlooked =>
          exact ⟨hreaches, hprints.congr hlooked.mmap.symm hlooked.pgd.symm,
            Or.inr ⟨byte, hfetches⟩⟩
      | failed hfails hlooked =>
          exact ⟨hreaches, hprints.congr hlooked.mmap.symm hlooked.pgd.symm, Or.inl hfails⟩
    · rw [libread_of_not_reaches junk hreaches] at hread
      obtain ⟨printed, -, htriple⟩ := map_eq_ok.mp hread
      cases htriple
  · rintro ⟨rgid, hregister, hreaches, hprints, haccess⟩
    have hcompletes : ∀ data found,
        pgGetval krnl (krnl.accessAddr rgid offset) = .ok (data, found) →
          krnl.LookedUp found →
            ∃ destination after, libread junk krnl source offset = .ok (0, destination, after) := by
      intro data found hget hlooked
      obtain ⟨printed, hdump⟩ :=
        (exists_dumpPgtbl_iff found).mpr (hprints.congr hlooked.mmap hlooked.pgd)
      refine ⟨(data.getD junk).signExtend 32, printed, ?_⟩
      rw [eq_ofNat_of_register hregister, libread_of_reaches junk hreaches, hget, ok_bind]
      exact map_eq_ok.mpr ⟨printed, hdump, rfl⟩
    have hcase := getvalCase krnl (krnl.accessAddr rgid offset)
    generalize hget : pgGetval krnl (krnl.accessAddr rgid offset) = outcome at hcase
    cases hcase with
    | fetched _ hlooked => exact hcompletes _ _ hget hlooked
    | failed _ hlooked => exact hcompletes _ _ hget hlooked
    | faulted hfails hfetches =>
        rcases haccess with hfailed | ⟨byte, hfetched⟩
        · exact absurd hfailed hfails
        · exact absurd hfetched (hfetches byte)

end Krnl

/-! ## One `run` -/

namespace RunProc

variable {pidOf : Proc → Except Fault Word32} {junk : Byte} {proc after : RunProc Proc}
  {ins : InstT} {status : Int}

/-- Whatever the instruction does, the registers and the program stay, and `pc` advances. -/
theorem run_advances (hins : proc.code[proc.pc.toNat]? = some ins)
    (hrun : proc.run pidOf junk = .ok (status, after)) :
    after.regs = proc.regs ∧ after.code = proc.code ∧ after.pc.toNat = proc.pc.toNat + 1 := by
  unfold run at hrun
  rw [hins] at hrun
  obtain ⟨⟨stat, copy, krnl⟩, -, hpair⟩ := bind_eq_ok.mp hrun
  cases hpair
  refine ⟨rfl, rfl, ?_⟩
  have hlt := (List.getElem?_eq_some_iff.mp hins).1
  have hsize := proc.size_lt
  change (proc.pc + 1).toNat = proc.pc.toNat + 1
  rw [BitVec.toNat_add, show (1 : Word32).toNat = 1 from rfl]
  omega

/-- A `READ` ends as `libread` ends. -/
theorem run_read_iff (hins : proc.code[proc.pc.toNat]? = some ins) (hread : ins.opcode = .read) :
    (∃ after, proc.run pidOf junk = .ok (status, after)) ↔
      ∃ destination krnl, libread junk proc.krnl (ins.arg0.setWidth 32) ins.arg1 =
        .ok (status, destination, krnl) := by
  unfold run InstT.executeCopy
  rw [hins]
  simp only [hread]
  constructor
  · rintro ⟨after, hrun⟩
    obtain ⟨⟨stat, copy, krnl⟩, hcopy, hpair⟩ := bind_eq_ok.mp hrun
    obtain ⟨⟨found, value, last⟩, hlibread, htriple⟩ := bind_eq_ok.mp hcopy
    cases hpair
    cases htriple
    exact ⟨value, last, hlibread⟩
  · rintro ⟨destination, krnl, hlibread⟩
    rw [hlibread]
    exact ⟨_, rfl⟩

/-- No `READ` that gets through to `pg_getval` fails there, and its register holds the byte
already. Where the page table cannot be printed `libread` does not return. -/
def HoldsAlready (proc : RunProc Proc) (ins : InstT)
    (hdestination : ins.arg2.toNat < numRegs) : Prop :=
  ∀ rgid, register (ins.arg0.setWidth 32).toInt = some rgid →
    proc.krnl.ReachesRead rgid ins.arg1 → proc.krnl.mm.Prints →
    ¬ proc.krnl.AccessFails (proc.krnl.accessAddr rgid ins.arg1) ∧
      ∀ byte, proc.krnl.Fetches (proc.krnl.accessAddr rgid ins.arg1) byte →
        proc.regs ⟨ins.arg2.toNat, hdestination⟩ = byte.signExtend 64

/-- A byte that `run` delivers is the one in RAM, and was in the register before. -/
theorem Delivers.held {hdestination : ins.arg2.toNat < numRegs} {rgid : Fin pagingMaxSymtblSz}
    (hdelivers : Delivers pidOf junk proc ins hdestination)
    (hins : proc.code[proc.pc.toNat]? = some ins) (hread : ins.opcode = .read)
    (hregister : register (ins.arg0.setWidth 32).toInt = some rgid)
    (hreaches : proc.krnl.ReachesRead rgid ins.arg1) (hprints : proc.krnl.mm.Prints)
    (haccess : proc.krnl.AccessFails (proc.krnl.accessAddr rgid ins.arg1) ∨
      ∃ byte, proc.krnl.Fetches (proc.krnl.accessAddr rgid ins.arg1) byte) :
    ∃ byte, proc.krnl.Fetches (proc.krnl.accessAddr rgid ins.arg1) byte ∧
      proc.regs ⟨ins.arg2.toNat, hdestination⟩ = byte.signExtend 64 := by
  have hsucceeds : ∃ after, proc.run pidOf junk = .ok (0, after) :=
    (run_read_iff hins hread).mpr
      (Krnl.libread_succeeds_iff.mpr ⟨rgid, hregister, hreaches, hprints, haccess⟩)
  obtain ⟨after, hrun⟩ := hsucceeds
  obtain ⟨byte, ⟨index, hindex, -, hfetches⟩, hregs, -, -⟩ := hdelivers.success after hrun
  rw [hregister, Option.some.injEq] at hindex
  subst hindex
  refine ⟨byte, hfetches, ?_⟩
  rw [← (run_advances hins hrun).1, hregs, Function.update_self]

/-- A `READ` delivers exactly when there is nothing to deliver. -/
theorem delivers_iff_holdsAlready (pidOf : Proc → Except Fault Word32) (junk : Byte)
    (proc : RunProc Proc) (ins : InstT) (hins : proc.code[proc.pc.toNat]? = some ins)
    (hread : ins.opcode = .read) (hdestination : ins.arg2.toNat < numRegs) :
    Delivers pidOf junk proc ins hdestination ↔ proc.HoldsAlready ins hdestination := by
  constructor
  · intro hdelivers rgid hregister hreaches hprints
    have hheld := hdelivers.held hins hread hregister hreaches hprints
    constructor
    · intro hfails
      obtain ⟨byte, hfetches, -⟩ := hheld (Or.inl hfails)
      exact Krnl.not_accessFails_of_random hfetches.finds hfetches.random hfails
    · intro byte hfetches
      obtain ⟨found, hfound, hregister⟩ := hheld (Or.inr ⟨byte, hfetches⟩)
      obtain rfl := Option.some.inj (hfetches.byte.symm.trans hfound.byte)
      exact hregister
  · intro hholds
    refine { success := fun after hrun => ?_, failure := fun status after _ hrun => ?_ }
    · obtain ⟨rgid, hregister, hreaches, hprints, haccess⟩ :=
        Krnl.libread_succeeds_iff.mp ((run_read_iff hins hread).mp ⟨after, hrun⟩)
      obtain ⟨hworks, hsame⟩ := hholds rgid hregister hreaches hprints
      obtain ⟨byte, hfetches⟩ := haccess.resolve_left hworks
      obtain ⟨hregs, hcode, hpc⟩ := run_advances hins hrun
      refine ⟨byte, ⟨rgid, hregister, hreaches, hfetches⟩, ?_, hcode, hpc⟩
      rw [hregs, ← hsame byte hfetches, Function.update_eq_self]
    · exact (run_advances hins hrun).1

/-- `READ 0 3 2` -/
def readThree : InstT where
  opcode := .read
  arg0 := 0
  arg1 := 3
  arg2 := 2
  arg3 := 0

/-- A process about to read from a region whose page is full of sevens, with the same value
in all registers. -/
def readsSeven (held : Addr) : RunProc Unit where
  regs _ := held
  krnl := { sevens with mm := { sevens.mm with symrgtbl := fun _ => ⟨0, 100⟩ } }
  pid := 1
  code := [readThree]
  pc := 0
  size_lt := by decide

/-- A new process about to run `ALLOC 100 0` and then the same `READ`. -/
def allocThenRead : RunProc Unit where
  regs _ := 0
  krnl := singleProcess.initMm .null
  pid := 1
  code := [{ opcode := .alloc, arg0 := 100, arg1 := 0, arg2 := 0, arg3 := 0 }, readThree]
  pc := 0
  size_lt := by decide

theorem fetches_readsSeven (held : Addr) (rgid : Fin pagingMaxSymtblSz) (byte : Byte) :
    (readsSeven held).krnl.Fetches ((readsSeven held).krnl.accessAddr rgid 3) byte ↔
      byte = 7 := by
  have hfinds : (readsSeven 0).krnl.Finds (Krnl.lookupPgn 3) := Or.inl (by decide +kernel)
  have hseven : (readsSeven 0).krnl.mram.storage[((readsSeven 0).krnl.ramAddr 3).toNat]? =
      some 7 := by
    decide +kernel
  constructor
  · intro hfetches
    exact Option.some.inj (hfetches.byte.symm.trans hseven)
  · rintro rfl
    exact { finds := hfinds, random := rfl, byte := hseven }

/-- A `READ` of the 7 that its register holds. -/
theorem delivers_iff_holdsAlready_seven :
    (∃ after, (readsSeven 7).run (fun _ => .ok 1) 0 = .ok (0, after)) ∧
      Delivers (fun _ => .ok 1) 0 (readsSeven 7) readThree (by decide) := by
  refine ⟨?_, (delivers_iff_holdsAlready (fun _ => .ok 1) 0 (readsSeven 7) readThree rfl rfl
    (by decide)).mpr fun rgid _ _ _ => ⟨?_, fun byte hfetches => ?_⟩⟩
  · have hstatus : ((readsSeven 7).run (fun _ => .ok 1) 0).toOption.map Prod.fst = some 0 := by
      decide +kernel
    obtain ⟨⟨status, after⟩, hrun, rfl⟩ := Option.map_eq_some_iff.mp hstatus
    exact ⟨after, Runs.toOption_eq_some_iff.mp hrun⟩
  · have hseven := (fetches_readsSeven 7 rgid 7).mpr rfl
    exact Krnl.not_accessFails_of_random hseven.finds hseven.random
  · obtain rfl := (fetches_readsSeven 7 rgid byte).mp hfetches
    decide

/-- A `READ` of a 7 leaves the 0 in its register. That of a new process gets no byte at all,
and returns 0 as well. -/
theorem not_delivers_readThree :
    (∃ after, (readsSeven 0).run (fun _ => .ok 1) 0 = .ok (0, after) ∧ after.regs 2 = 0 ∧
        (readsSeven 0).Obtains readThree 7 ∧
        ¬ Delivers (fun _ => .ok 1) 0 (readsSeven 0) readThree (by decide)) ∧
      ∃ proc after, allocThenRead.run (fun _ => .ok 1) 0 = .ok (0, proc) ∧
        proc.run (fun _ => .ok 1) 5 = .ok (0, after) ∧ after.regs 2 = 0 ∧
        ¬ Delivers (fun _ => .ok 1) 5 proc readThree (by decide) := by
  constructor
  · have hstatus : ((readsSeven 0).run (fun _ => .ok 1) 0).toOption.map Prod.fst = some 0 := by
      decide +kernel
    obtain ⟨⟨status, after⟩, hrun, rfl⟩ := Option.map_eq_some_iff.mp hstatus
    rw [Runs.toOption_eq_some_iff] at hrun
    have hins : (readsSeven 0).code[(readsSeven 0).pc.toNat]? = some readThree := rfl
    have hregs := (run_advances hins hrun).1
    refine ⟨after, hrun, congrFun hregs 2, ⟨0, rfl, by decide, ?_⟩, fun hdelivers => ?_⟩
    · exact (fetches_readsSeven 0 0 7).mpr rfl
    · obtain ⟨byte, ⟨rgid, -, -, hfetches⟩, hupdate, -, -⟩ := hdelivers.success after hrun
      obtain rfl := (fetches_readsSeven 0 rgid byte).mp hfetches
      have hregister := congrFun (hregs.symm.trans hupdate) 2
      exact absurd hregister (by decide)
  · have hcalls : (allocThenRead.run (fun _ => .ok 1) 0).toOption.map (fun ran => (ran.1,
        (ran.2.run (fun _ => .ok 1) 5).toOption.map (fun last => (last.1, last.2.regs 2)),
        decide (ran.2.krnl.Finds (Krnl.lookupPgn (ran.2.krnl.accessAddr 0 3))))) =
        some (0, some (0, 0), false) := by
      decide +kernel
    obtain ⟨⟨status, proc⟩, halloc, hobserved⟩ := Option.map_eq_some_iff.mp hcalls
    simp only [Prod.mk.injEq, decide_eq_false_iff_not] at hobserved
    obtain ⟨rfl, hread, hmissing⟩ := hobserved
    obtain ⟨⟨status, after⟩, hrun, hlast⟩ := Option.map_eq_some_iff.mp hread
    rw [Runs.toOption_eq_some_iff] at halloc hrun
    obtain ⟨rfl, hregister⟩ := Prod.mk.inj hlast
    refine ⟨proc, after, halloc, hrun, hregister, fun hdelivers => ?_⟩
    obtain ⟨byte, ⟨rgid, hsource, -, hfetches⟩, -, -, -⟩ := hdelivers.success after hrun
    obtain rfl : (0 : Fin pagingMaxSymtblSz) = rgid := Option.some.inj hsource
    exact hmissing hfetches.finds

/-! ## Whole runs -/

/-- No run of instructions ever changes a register, so none delivers anything. -/
theorem run_keeps_registers {events : List Byte} {final : RunProc Proc}
    (hrun : Runs.run (step pidOf) proc events = some final) :
    final.regs = proc.regs ∧ final.code = proc.code := by
  refine Runs.run_invariant (fun next => next.regs = proc.regs ∧ next.code = proc.code)
    (fun _ => True) ?_ (fun _ _ => trivial) ⟨rfl, rfl⟩ hrun
  rintro middle junk next - ⟨hregs, hcode⟩ hstep
  obtain ⟨⟨status, after⟩, hafter, rfl⟩ := Option.map_eq_some_iff.mp hstep
  rw [Runs.toOption_eq_some_iff] at hafter
  cases hins : middle.code[middle.pc.toNat]? with
  | none =>
      unfold run at hafter
      rw [hins] at hafter
      cases hafter
      exact ⟨hregs, hcode⟩
  | some ins =>
      obtain ⟨hsame, hkept, -⟩ := run_advances hins hafter
      exact ⟨hsame.trans hregs, hkept.trans hcode⟩

end RunProc

end SimpleOs
