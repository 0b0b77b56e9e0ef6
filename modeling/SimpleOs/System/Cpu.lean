import SimpleOs.Kernel.LibCall

/-! # Instructions

`cpu.c` as it is built with `MM_PAGING`: an instruction calls the memory library or
makes a system call. `run` ignores what a `READ` delivers, since its destination is the
local copy of the instruction.
-/

namespace SimpleOs

variable {Proc : Type}

/-- `enum ins_opcode_t` -/
inductive InsOpcode where
  | calc
  | alloc
  | free
  | read
  | write
  | syscall
  deriving DecidableEq, Repr

/-- `struct inst_t` -/
structure InstT where
  opcode : InsOpcode
  arg0 : Addr
  arg1 : Addr
  arg2 : Addr
  arg3 : Addr
  deriving DecidableEq, Repr

/-- `libsyscall` -/
def libsyscall (pidOf : Proc → Except Fault Word32) (junk : Byte) (krnl : Krnl Proc)
    (pid syscallIdx : Word32) (a1 a2 a3 : Addr) : Except Fault (Int × Krnl Proc) := do
  let (status, krnl, _) ←
    syscall pidOf junk krnl pid syscallIdx { a1 := a1, a2 := a2, a3 := a3 }
  return (status, krnl)

/-- The `switch` of `run`, with the arguments narrowed as the functions it calls declare
them: `stat`, and the kernel afterwards. -/
def InstT.execute (pidOf : Proc → Except Fault Word32) (junk : Byte) (krnl : Krnl Proc)
    (pid : Word32) (ins : InstT) : Except Fault (Int × Krnl Proc) :=
  match ins.opcode with
  | .calc => .ok (0, krnl)
  | .alloc => (LibCall.alloc ins.arg0 (ins.arg1.setWidth 32)).call pidOf junk krnl pid
  | .free => (LibCall.free (ins.arg0.setWidth 32)).call pidOf junk krnl pid
  | .read => (LibCall.read (ins.arg0.setWidth 32) ins.arg1).call pidOf junk krnl pid
  | .write =>
      (LibCall.write (ins.arg0.setWidth 8) (ins.arg1.setWidth 32) ins.arg2).call pidOf junk krnl
        pid
  | .syscall => libsyscall pidOf junk krnl pid (ins.arg0.setWidth 32) ins.arg1 ins.arg2 ins.arg3

end SimpleOs
