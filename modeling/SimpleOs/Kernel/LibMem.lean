import SimpleOs.Kernel.SysMem
import SimpleOs.Memory.Regions

/-! # The memory library

`libmem.c`: allocating and freeing regions, and reading and writing bytes in them. The
library works on the memory descriptor that the kernel structure points to. A local
variable that the C code leaves unassigned is the parameter `junk`.
-/

namespace SimpleOs

variable {Proc : Type}

/-- `SYSMEM_INC_OP` -/
def sysmemIncOp : Addr := 2

/-- `__alloc`: its status and `*alloc_addr`. The result of the system call is ignored,
and so is whether it found the process. -/
def alloc (pidOf : Proc → Except Fault Word32) (junk : Byte) (krnl : Krnl Proc) (pid : Word32)
    (vmaid rgid : Int) (size : Addr) : Except Fault (Int × Option Addr × Krnl Proc) := do
  let (rgnode, mm) ← krnl.mm.getFreeVmrgArea vmaid (toCInt size)
  match rgnode with
  | some rgnode =>
      let mm ← mm.setSymrg rgid rgnode
      return (0, some rgnode.rgStart, { krnl with mm := mm })
  | none =>
      let curVma ← mm.getVmaByNum vmaid
      match curVma with
      | none => return (-1, none, { krnl with mm := mm })
      | some _ =>
          let vma ← mm.vmaAt curVma
          let oldSbrk := vma.sbrk
          let incSz := toCInt size
          let regs := { a1 := sysmemIncOp, a2 := ofCInt vmaid, a3 := ofCInt incSz }
          let (_, krnl, _) ← syscall pidOf junk { krnl with mm := mm } pid 17 regs
          let mm ← krnl.mm.setSymrg rgid { rgStart := oldSbrk, rgEnd := oldSbrk + size }
          return (0, some oldSbrk, { krnl with mm := mm })

/-- `__free`. The parameter `vmaid` is not used. -/
def free (mm : MmStruct) (rgid : Int) : Except Fault (Int × MmStruct) :=
  if rgid < 0 ∨ rgid > pagingMaxSymtblSz then .ok (-1, mm)
  else do
    let rgnode ← mm.symrg rgid
    if rgnode.rgStart = 0 ∧ rgnode.rgEnd = 0 then return (-1, mm)
    else
      let mm ← mm.setSymrg rgid { rgStart := 0, rgEnd := 0 }
      let mm ← mm.enlistVmFreergList rgnode
      return (0, mm)

/-- `find_victim_page`: the last page of the list. In a list of one page the code writes
through a `NULL` pointer. -/
def findVictimPage (mm : MmStruct) : Except Fault (Option Addr × MmStruct) :=
  match mm.fifoPgn with
  | [] => .ok (none, mm)
  | [_] => .error .nullDeref
  | first :: second :: rest =>
      .ok (some ((second :: rest).getLast (by simp)),
        { mm with fifoPgn := (first :: second :: rest).dropLast })

/-- `pg_getpage`: the frame of a page, `none` when the page cannot be had. -/
def pgGetpage (krnl : Krnl Proc) (pgn : Addr) : Except Fault (Option Word32 × Krnl Proc) := do
  let (pte, mm) := krnl.mm.pteGetEntry pgn
  let krnl := { krnl with mm := mm }
  if pagingPagePresent pte then
    let (pte, mm) := krnl.mm.pteGetEntry pgn
    return (some (pagingFpn pte), { krnl with mm := mm })
  else
    let (vicpgn, mm) ← findVictimPage krnl.mm
    let krnl := { krnl with mm := mm }
    match vicpgn with
    | none => return (none, krnl)
    | some _ =>
        let (swpfpn, activeMswp) ← krnl.activeMswp.getFreefp
        let krnl := { krnl with activeMswp := activeMswp }
        match swpfpn with
        | none => return (none, krnl)
        | some _ =>
            let (pte, mm) := { krnl.mm with fifoPgn := pgn :: krnl.mm.fifoPgn }.pteGetEntry pgn
            return (some (pagingFpn pte), { krnl with mm := mm })

/-- `pg_getval`, at an address narrowed to `int`: the value, `none` when it fails. -/
def pgGetval (krnl : Krnl Proc) (addr : Word32) : Except Fault (Option Byte × Krnl Proc) := do
  let (fpn, krnl) ← pgGetpage krnl ((pagingPgn addr).signExtend 64)
  match fpn with
  | none => return (none, krnl)
  | some fpn =>
      let (value, mram) ← krnl.mram.read ((phyaddr fpn (pagingOffst addr)).signExtend 64)
      return (value, { krnl with mram := mram })

/-- `pg_setval` -/
def pgSetval (krnl : Krnl Proc) (addr : Word32) (value : Byte) :
    Except Fault (Int × Krnl Proc) := do
  let (fpn, krnl) ← pgGetpage krnl ((pagingPgn addr).signExtend 64)
  match fpn with
  | none => return (-1, krnl)
  | some fpn =>
      let (status, mram) ←
        krnl.mram.write ((phyaddr fpn (pagingOffst addr)).signExtend 64) value
      return (status, { krnl with mram := mram })

/-- `__read`: its status and `*data`, which stays unassigned when nothing is read. The
parameter `vmaid` is not used. -/
def readByte (krnl : Krnl Proc) (rgid : Int) (offset : Addr) :
    Except Fault (Int × Option Byte × Krnl Proc) :=
  match MmStruct.getSymrgByid rgid with
  | none => .ok (-1, none, krnl)
  | some _ => do
      let currg ← krnl.mm.symrg rgid
      if currg.rgStart = 0 ∧ currg.rgEnd = 0 then return (-1, none, krnl)
      else if currg.rgStart + offset ≥ currg.rgEnd then return (-1, none, krnl)
      else
        let (data, krnl) ← pgGetval krnl ((currg.rgStart + offset).setWidth 32)
        return (0, data, krnl)

/-- `__write`, which does not ask whether the region is allocated or the offset inside. -/
def writeByte (krnl : Krnl Proc) (vmaid rgid : Int) (offset : Addr) (value : Byte) :
    Except Fault (Int × Krnl Proc) := do
  let curVma ← krnl.mm.getVmaByNum vmaid
  match MmStruct.getSymrgByid rgid, curVma with
  | some _, some _ =>
      let currg ← krnl.mm.symrg rgid
      let (_, krnl) ← pgSetval krnl ((currg.rgStart + offset).setWidth 32) value
      return (0, krnl)
  | _, _ => return (-1, krnl)

/-- `print_pgtbl(proc, 0, -1)` at the end of a library call. -/
def dumpPgtbl (krnl : Krnl Proc) : Except Fault (Krnl Proc) :=
  krnl.mm.printPgtbl.map fun mm => { krnl with mm := mm }

/-- `liballoc` -/
def liballoc (pidOf : Proc → Except Fault Word32) (junk : Byte) (krnl : Krnl Proc)
    (pid : Word32) (size : Addr) (regIndex : Word32) : Except Fault (Int × Krnl Proc) := do
  let (val, _, krnl) ← alloc pidOf junk krnl pid 0 regIndex.toInt size
  if val = -1 then return (-1, krnl)
  else
    let krnl ← dumpPgtbl krnl
    return (val, krnl)

/-- `libfree` -/
def libfree (krnl : Krnl Proc) (regIndex : Word32) : Except Fault (Int × Krnl Proc) := do
  let (val, mm) ← free krnl.mm regIndex.toInt
  let krnl := { krnl with mm := mm }
  if val = -1 then return (-1, krnl)
  else
    let krnl ← dumpPgtbl krnl
    return (0, krnl)

/-- `libread`: its status and `*destination`, a sign-extended `char`. -/
def libread (junk : Byte) (krnl : Krnl Proc) (source : Word32) (offset : Addr) :
    Except Fault (Int × Word32 × Krnl Proc) := do
  let (val, data, krnl) ← readByte krnl source.toInt offset
  let destination := (data.getD junk).signExtend 32
  let krnl ← dumpPgtbl krnl
  return (val, destination, krnl)

/-- `libwrite` -/
def libwrite (krnl : Krnl Proc) (data : Byte) (destination : Word32) (offset : Addr) :
    Except Fault (Int × Krnl Proc) := do
  let (val, krnl) ← writeByte krnl 0 destination.toInt offset data
  if val = -1 then return (-1, krnl)
  else
    let krnl ← dumpPgtbl krnl
    return (val, krnl)

/-! ## Completed calls -/

/-- What `__alloc` does after its search, by what the search has found, up to its status,
`*alloc_addr` and the kernel after it. -/
inductive AllocEnds (pidOf : Proc → Except Fault Word32) (junk : Byte) (krnl : Krnl Proc)
    (pid : Word32) (vmaid rgid : Int) (size : Addr) (mm : MmStruct) :
    Option VmRgStruct → Int → Option Addr → Krnl Proc → Prop
  | taken {rg : VmRgStruct} {written : MmStruct} (hset : mm.setSymrg rgid rg = .ok written) :
      AllocEnds pidOf junk krnl pid vmaid rgid size mm (some rg) 0 (some rg.rgStart)
        { krnl with mm := written }
  | noArea (hlookup : mm.getVmaByNum vmaid = .ok none) :
      AllocEnds pidOf junk krnl pid vmaid rgid size mm none (-1) none { krnl with mm := mm }
  | grown {position : Nat} {vma : VmAreaStruct} {status : Int} {after : Krnl Proc}
      {regs final : ScRegs} {written : MmStruct}
      (hlookup : mm.getVmaByNum vmaid = .ok (some position))
      (hvma : mm.vmaAt (some position) = .ok vma)
      (hregs : regs = { a1 := sysmemIncOp, a2 := ofCInt vmaid, a3 := ofCInt (toCInt size) })
      (hcall : syscall pidOf junk { krnl with mm := mm } pid 17 regs =
        .ok (status, after, final))
      (hset : after.mm.setSymrg rgid { rgStart := vma.sbrk, rgEnd := vma.sbrk + size } =
        .ok written) :
      AllocEnds pidOf junk krnl pid vmaid rgid size mm none 0 (some vma.sbrk)
        { after with mm := written }

theorem alloc_ends {pidOf : Proc → Except Fault Word32} {junk : Byte} {krnl next : Krnl Proc}
    {pid : Word32} {vmaid rgid status : Int} {size : Addr} {addr : Option Addr}
    (halloc : alloc pidOf junk krnl pid vmaid rgid size = .ok (status, addr, next)) :
    ∃ found mm, krnl.mm.getFreeVmrgArea vmaid (toCInt size) = .ok (found, mm) ∧
      AllocEnds pidOf junk krnl pid vmaid rgid size mm found status addr next := by
  unfold alloc at halloc
  obtain ⟨⟨found, mm⟩, hsearch, halloc⟩ := bind_eq_ok.mp halloc
  refine ⟨found, mm, hsearch, ?_⟩
  cases found with
  | some rg =>
      obtain ⟨written, hset, hdone⟩ := bind_eq_ok.mp halloc
      cases hdone
      exact .taken hset
  | none =>
      obtain ⟨curVma, hlookup, halloc⟩ := bind_eq_ok.mp halloc
      cases curVma with
      | none =>
          cases halloc
          exact .noArea hlookup
      | some position =>
          obtain ⟨vma, hvma, halloc⟩ := bind_eq_ok.mp halloc
          obtain ⟨⟨result, after, final⟩, hcall, halloc⟩ := bind_eq_ok.mp halloc
          obtain ⟨written, hset, hdone⟩ := bind_eq_ok.mp halloc
          cases hdone
          exact .grown hlookup hvma rfl hcall hset

/-- What `__free` does, up to its status and the descriptor after it. -/
inductive FreeEnds (mm : MmStruct) (rgid : Int) : Int → MmStruct → Prop
  | refused : FreeEnds mm rgid (-1) mm
  | freed {rg : VmRgStruct} {cleared listed : MmStruct} (hread : mm.symrg rgid = .ok rg)
      (hclear : mm.setSymrg rgid { rgStart := 0, rgEnd := 0 } = .ok cleared)
      (hlist : cleared.enlistVmFreergList rg = .ok listed) : FreeEnds mm rgid 0 listed

theorem free_ends {mm next : MmStruct} {rgid status : Int}
    (hfree : free mm rgid = .ok (status, next)) : FreeEnds mm rgid status next := by
  unfold free at hfree
  split at hfree
  next =>
    cases hfree
    exact .refused
  next =>
    obtain ⟨rg, hread, hfree⟩ := bind_eq_ok.mp hfree
    split at hfree
    next =>
      cases hfree
      exact .refused
    next =>
      obtain ⟨cleared, hclear, hfree⟩ := bind_eq_ok.mp hfree
      obtain ⟨listed, hlist, hfree⟩ := bind_eq_ok.mp hfree
      cases hfree
      exact .freed hread hclear hlist

end SimpleOs
