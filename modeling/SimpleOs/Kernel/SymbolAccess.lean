import SimpleOs.Foundation.Traced
import SimpleOs.Kernel.LibMem

/-! # Accesses to the symbol table

The entry points of the memory library with the indices at which they access `symrgtbl`.
Without the accesses they are the entry points, and each accesses the table at the number
that it is given, at no other.
-/

namespace SimpleOs

open MmStruct

variable {Proc : Type}

/-! ## The entry points with their accesses -/

namespace MmStruct

/-- `mm->symrgtbl[rgid]` as a value. -/
def touchSymrg (mm : MmStruct) (rgid : Int) : Traced Int Fault VmRgStruct :=
  .touch rgid (mm.symrg rgid)

/-- `mm->symrgtbl[rgid]` as the target of an assignment. -/
def touchSetSymrg (mm : MmStruct) (rgid : Int) (rg : VmRgStruct) : Traced Int Fault MmStruct :=
  .touch rgid (mm.setSymrg rgid rg)

end MmStruct

/-- `__alloc` with its accesses to the table. -/
def tracedAlloc (pidOf : Proc → Except Fault Word32) (junk : Byte) (krnl : Krnl Proc)
    (pid : Word32) (vmaid rgid : Int) (size : Addr) :
    Traced Int Fault (Int × Option Addr × Krnl Proc) := do
  let (rgnode, mm) ← .lift (krnl.mm.getFreeVmrgArea vmaid (toCInt size))
  match rgnode with
  | some rgnode =>
      let mm ← mm.touchSetSymrg rgid rgnode
      return (0, some rgnode.rgStart, { krnl with mm := mm })
  | none =>
      let curVma ← .lift (mm.getVmaByNum vmaid)
      match curVma with
      | none => return (-1, none, { krnl with mm := mm })
      | some _ =>
          let vma ← .lift (mm.vmaAt curVma)
          let oldSbrk := vma.sbrk
          let incSz := toCInt size
          let regs := { a1 := sysmemIncOp, a2 := ofCInt vmaid, a3 := ofCInt incSz }
          let (_, krnl, _) ← .lift (syscall pidOf junk { krnl with mm := mm } pid 17 regs)
          let mm ← krnl.mm.touchSetSymrg rgid { rgStart := oldSbrk, rgEnd := oldSbrk + size }
          return (0, some oldSbrk, { krnl with mm := mm })

/-- `__free` with its accesses to the table. -/
def tracedFree (mm : MmStruct) (rgid : Int) : Traced Int Fault (Int × MmStruct) :=
  if rgid < 0 ∨ rgid > pagingMaxSymtblSz then pure (-1, mm)
  else do
    let rgnode ← mm.touchSymrg rgid
    if rgnode.rgStart = 0 ∧ rgnode.rgEnd = 0 then return (-1, mm)
    else
      let mm ← mm.touchSetSymrg rgid { rgStart := 0, rgEnd := 0 }
      let mm ← .lift (mm.enlistVmFreergList rgnode)
      return (0, mm)

/-- `__read` with its accesses to the table. -/
def tracedRead (krnl : Krnl Proc) (rgid : Int) (offset : Addr) :
    Traced Int Fault (Int × Option Byte × Krnl Proc) :=
  match getSymrgByid rgid with
  | none => pure (-1, none, krnl)
  | some _ => do
      let currg ← krnl.mm.touchSymrg rgid
      if currg.rgStart = 0 ∧ currg.rgEnd = 0 then return (-1, none, krnl)
      else if currg.rgStart + offset ≥ currg.rgEnd then return (-1, none, krnl)
      else
        let (data, krnl) ← .lift (pgGetval krnl ((currg.rgStart + offset).setWidth 32))
        return (0, data, krnl)

/-- `__write` with its accesses to the table. -/
def tracedWrite (krnl : Krnl Proc) (vmaid rgid : Int) (offset : Addr) (value : Byte) :
    Traced Int Fault (Int × Krnl Proc) := do
  let curVma ← .lift (krnl.mm.getVmaByNum vmaid)
  match getSymrgByid rgid, curVma with
  | some _, some _ =>
      let currg ← krnl.mm.touchSymrg rgid
      let (_, krnl) ← .lift (pgSetval krnl ((currg.rgStart + offset).setWidth 32) value)
      return (0, krnl)
  | _, _ => return (-1, krnl)

/-! ## Without the accesses -/

theorem outcome_tracedAlloc (pidOf : Proc → Except Fault Word32) (junk : Byte)
    (krnl : Krnl Proc) (pid : Word32) (vmaid rgid : Int) (size : Addr) :
    (tracedAlloc pidOf junk krnl pid vmaid rgid size).outcome =
      alloc pidOf junk krnl pid vmaid rgid size := by
  unfold tracedAlloc alloc touchSetSymrg
  rw [Traced.outcome_bind, Traced.outcome_lift]
  congr 1
  funext ⟨rgnode, mm⟩
  cases rgnode with
  | some rg => simp only [Traced.outcome_bind, Traced.outcome_touch, Traced.outcome_pure]; rfl
  | none =>
      rw [Traced.outcome_bind, Traced.outcome_lift]
      congr 1
      funext curVma
      cases curVma with
      | none => rfl
      | some position =>
          simp only [Traced.outcome_bind, Traced.outcome_lift, Traced.outcome_touch,
            Traced.outcome_pure]
          rfl

theorem outcome_tracedFree (mm : MmStruct) (rgid : Int) :
    (tracedFree mm rgid).outcome = free mm rgid := by
  unfold tracedFree free touchSymrg touchSetSymrg
  split
  next => rfl
  next =>
    rw [Traced.outcome_bind, Traced.outcome_touch]
    congr 1
    funext rgnode
    split
    next => rfl
    next =>
      simp only [Traced.outcome_bind, Traced.outcome_lift, Traced.outcome_touch,
        Traced.outcome_pure]
      rfl

theorem outcome_tracedRead (krnl : Krnl Proc) (rgid : Int) (offset : Addr) :
    (tracedRead krnl rgid offset).outcome = readByte krnl rgid offset := by
  unfold tracedRead readByte touchSymrg
  cases getSymrgByid rgid with
  | none => rfl
  | some pointer =>
      simp only
      rw [Traced.outcome_bind, Traced.outcome_touch]
      congr 1
      funext currg
      split
      next => rfl
      next =>
        split
        next => rfl
        next =>
          simp only [Traced.outcome_bind, Traced.outcome_lift, Traced.outcome_pure]
          rfl

theorem outcome_tracedWrite (krnl : Krnl Proc) (vmaid rgid : Int) (offset : Addr)
    (value : Byte) :
    (tracedWrite krnl vmaid rgid offset value).outcome =
      writeByte krnl vmaid rgid offset value := by
  unfold tracedWrite writeByte touchSymrg
  rw [Traced.outcome_bind, Traced.outcome_lift]
  congr 1
  funext curVma
  cases getSymrgByid rgid with
  | none => rfl
  | some pointer =>
      cases curVma with
      | none => rfl
      | some position =>
          simp only [Traced.outcome_bind, Traced.outcome_lift, Traced.outcome_touch,
            Traced.outcome_pure]
          rfl

/-! ## What the accesses are -/

theorem confined_touchSymrg (mm : MmStruct) (rgid : Int) :
    (mm.touchSymrg rgid).Confined fun index => index = rgid := by
  apply Traced.confined_touch
  rfl

theorem confined_touchSetSymrg (mm : MmStruct) (rgid : Int) (rg : VmRgStruct) :
    (mm.touchSetSymrg rgid rg).Confined fun index => index = rgid := by
  apply Traced.confined_touch
  rfl

/-- `__alloc` accesses the table at its register only. -/
theorem confined_tracedAlloc (pidOf : Proc → Except Fault Word32) (junk : Byte)
    (krnl : Krnl Proc) (pid : Word32) (vmaid rgid : Int) (size : Addr) :
    (tracedAlloc pidOf junk krnl pid vmaid rgid size).Confined fun index => index = rgid := by
  unfold tracedAlloc
  refine (Traced.confined_lift _).bind ?_
  rintro ⟨rgnode, mm⟩ -
  cases rgnode with
  | some rg =>
      exact (confined_touchSetSymrg _ _ _).bind fun _ _ => Traced.confined_pure _
  | none =>
      refine (Traced.confined_lift _).bind fun curVma _ => ?_
      cases curVma with
      | none => exact Traced.confined_pure _
      | some position =>
          refine (Traced.confined_lift _).bind fun vma _ => ?_
          refine (Traced.confined_lift _).bind ?_
          rintro ⟨status, grown, regs⟩ -
          exact (confined_touchSetSymrg _ _ _).bind fun _ _ => Traced.confined_pure _

theorem confined_tracedFree (mm : MmStruct) (rgid : Int) :
    (tracedFree mm rgid).Confined fun index => index = rgid := by
  unfold tracedFree
  split
  next => exact Traced.confined_pure _
  next =>
    refine (confined_touchSymrg _ _).bind fun rgnode _ => ?_
    split
    next => exact Traced.confined_pure _
    next =>
      refine (confined_touchSetSymrg _ _ _).bind fun _ _ => ?_
      exact (Traced.confined_lift _).bind fun _ _ => Traced.confined_pure _

theorem confined_tracedRead (krnl : Krnl Proc) (rgid : Int) (offset : Addr) :
    (tracedRead krnl rgid offset).Confined fun index => index = rgid := by
  unfold tracedRead
  cases getSymrgByid rgid with
  | none => exact Traced.confined_pure _
  | some pointer =>
      refine (confined_touchSymrg _ _).bind fun currg _ => ?_
      split
      next => exact Traced.confined_pure _
      next =>
        split
        next => exact Traced.confined_pure _
        next => exact (Traced.confined_lift _).bind fun _ _ => Traced.confined_pure _

theorem confined_tracedWrite (krnl : Krnl Proc) (vmaid rgid : Int) (offset : Addr)
    (value : Byte) :
    (tracedWrite krnl vmaid rgid offset value).Confined fun index => index = rgid := by
  unfold tracedWrite
  refine (Traced.confined_lift _).bind fun curVma _ => ?_
  cases getSymrgByid rgid with
  | none => exact Traced.confined_pure _
  | some pointer =>
      cases curVma with
      | none => exact Traced.confined_pure _
      | some position =>
          refine (confined_touchSymrg _ _).bind fun currg _ => ?_
          exact (Traced.confined_lift _).bind fun _ _ => Traced.confined_pure _

end SimpleOs
