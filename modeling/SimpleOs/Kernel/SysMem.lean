import SimpleOs.Memory.Memphy
import SimpleOs.Memory.Vm
import SimpleOs.Sched.Queue

/-! # System calls

`syscall.c` and the handlers it dispatches to. A handler gets the pid of its caller and
searches `running_list` for it by taking each process from the front and putting it back
at the end. All processes share one kernel structure, so of the process that is found
only its existence matters to the rest of the handler.
-/

namespace SimpleOs

variable {Proc : Type}

/-- `struct krnl_t`: the fields that system calls and instructions use. -/
structure Krnl (Proc : Type) where
  runningList : ProcQueue Proc
  mm : MmStruct
  mram : MemphyStruct
  activeMswp : MemphyStruct

/-- `struct sc_regs`, the argument registers that handlers use. -/
structure ScRegs where
  a1 : Addr
  a2 : Addr
  a3 : Addr

/-- The search loop for a pid over the given number of entries. Reading the pid of an
entry can fault. -/
def searchPid (pidOf : Proc → Except Fault Word32) (pid : Word32) :
    Nat → ProcQueue Proc → Except Fault (Option Proc × ProcQueue Proc)
  | 0, list => .ok (none, list)
  | count + 1, list =>
      match list.dequeue with
      | (none, list) => searchPid pidOf pid count list
      | (some proc, list) => do
          let procPid ← pidOf proc
          if procPid = pid then return (some proc, list.enqueue proc)
          else searchPid pidOf pid count (list.enqueue proc)

/-- The search at the start of `__sys_memmap` and `__sys_xxxhandler`. -/
def findCaller (pidOf : Proc → Except Fault Word32) (krnl : Krnl Proc) (pid : Word32) :
    Except Fault (Option Proc × Krnl Proc) :=
  (searchPid pidOf pid krnl.runningList.size krnl.runningList).map fun (caller, list) =>
    (caller, { krnl with runningList := list })

/-- The operations of `__sys_memmap`, for a caller that was found. The addresses that the file
passes on have 32 bits. With registers of 32 bits it also expects the field `krnl` of the caller
where the other files have `regs[6]`. Nothing writes that word, so the access to the RAM behind
`caller->krnl` follows a wild pointer. -/
def memop (junk : Byte) (krnl : Krnl Proc) (regs : ScRegs) : Except Fault (Krnl Proc × ScRegs) :=
  match toCInt regs.a1 with
  | 1 => do
      let mm ← krnl.mm.vmapPgdMemset (toAddr32 regs.a2) (toCInt regs.a3)
      return ({ krnl with mm := mm }, regs)
  | 2 => do
      let (_, mm) ← krnl.mm.incVmaLimit (toCInt regs.a2) (toAddr32 regs.a3)
      return ({ krnl with mm := mm }, regs)
  | 3 => do
      let (mram, activeMswp) ←
        swapCpPage junk krnl.mram (toAddr32 regs.a2) krnl.activeMswp (toAddr32 regs.a3)
      return ({ krnl with mram := mram, activeMswp := activeMswp }, regs)
  | 4 => .error .wildDeref
  | 5 => .error .wildDeref
  | _ => return (krnl, regs)

/-- `__sys_memmap` -/
def sysMemmap (pidOf : Proc → Except Fault Word32) (junk : Byte) (krnl : Krnl Proc)
    (pid : Word32) (regs : ScRegs) : Except Fault (Int × Krnl Proc × ScRegs) := do
  let (caller, krnl) ← findCaller pidOf krnl pid
  match caller with
  | none => return (-1, krnl, regs)
  | some _ =>
      let (krnl, regs) ← memop junk krnl regs
      return (0, krnl, regs)

/-- `__sys_xxxhandler`, whose operations only print. -/
def sysXxxhandler (pidOf : Proc → Except Fault Word32) (krnl : Krnl Proc) (pid : Word32) :
    Except Fault (Int × Krnl Proc) := do
  let (caller, krnl) ← findCaller pidOf krnl pid
  match caller with
  | none => return (-1, krnl)
  | some _ => return (0, krnl)

/-- `syscall`, over the entries of `syscall.tbl`. -/
def syscall (pidOf : Proc → Except Fault Word32) (junk : Byte) (krnl : Krnl Proc)
    (pid nr : Word32) (regs : ScRegs) : Except Fault (Int × Krnl Proc × ScRegs) :=
  match nr.toNat with
  | 17 => sysMemmap pidOf junk krnl pid regs
  | 101 => sysMemmap pidOf junk krnl pid regs
  | 440 => do
      let (status, krnl) ← sysXxxhandler pidOf krnl pid
      return (status, krnl, regs)
  | _ => return (0, krnl, regs)

end SimpleOs
