import Mathlib.Data.List.Rotate
import SimpleOs.Kernel.Unmapped

/-! # When an allocation cannot be served

`__alloc` asks the kernel to grow the area and then registers the new region, without a
look at the result of the system call. So it has no way to report that the growth failed.
-/

namespace SimpleOs

variable {Proc : Type} {pidOf : Proc → Except Fault Word32} {junk : Byte}
  {krnl next : Krnl Proc} {pid : Word32} {vmaid rgid : Int} {size : Addr}

/-- The kernel cannot supply the growth that `__alloc` asks for: the caller is not listed,
or the planned area is rejected, or RAM has fewer free frames than pages are requested. The
handler passes on 32 bits of the size. -/
def GrowthFails (pidOf : Proc → Except Fault Word32) (krnl : Krnl Proc) (pid : Word32)
    (vmaid : Int) (vma : VmAreaStruct) (size : Addr) : Prop :=
  let incSz := toAddr32 (ofCInt (toCInt size))
  (∃ after, findCaller pidOf krnl pid = .ok (none, after)) ∨
  (∃ status, krnl.mm.validateOverlapVmArea vmaid vma.sbrk (vma.sbrk + incSz) = .ok status ∧
    status < 0) ∨
  (krnl.mram.freeFpList.nodes.length : Int) <
    toCInt (paging64PageAlignsz incSz / paging64Pagesz)

/-- No free region of the area fits, and the area cannot grow. -/
structure CannotServe (pidOf : Proc → Except Fault Word32) (krnl : Krnl Proc) (pid : Word32)
    (vmaid : Int) (vma : VmAreaStruct) (size : Addr) : Prop where
  positive : 0 < size
  area : krnl.mm.getVmaByNum vmaid >>= krnl.mm.vmaAt = .ok vma
  noFit : ∀ rg ∈ vma.vmFreergList.nodes, ¬ rg.Fits (ofCInt (toCInt size))
  noGrowth : GrowthFails pidOf krnl pid vmaid vma size

/-- The allocation returns -1 and leaves everything as it was, up to a rotation of the
running list. -/
def FailureReported (pidOf : Proc → Except Fault Word32) (junk : Byte) (krnl : Krnl Proc)
    (pid : Word32) (vmaid rgid : Int) (size : Addr) : Prop :=
  ∃ addr after, alloc pidOf junk krnl pid vmaid rgid size = .ok (-1, addr, after) ∧
    after.mm.symrgtbl = krnl.mm.symrgtbl ∧ after.mm.mmap = krnl.mm.mmap ∧
    (∀ pgn, after.mm.leaf pgn = krnl.mm.leaf pgn) ∧ after.mm.fifoPgn = krnl.mm.fifoPgn ∧
    after.mram.freeFpList = krnl.mram.freeFpList ∧
    after.activeMswp.freeFpList = krnl.activeMswp.freeFpList ∧
    List.IsRotated after.runningList.items krnl.runningList.items

/-! ## The status of an allocation -/

/-- A search that completes has found an area to search, and it keeps the areas. -/
theorem getFreeVmrgArea_area {mm after : MmStruct} {size : Int} {newrg : Option VmRgStruct}
    (hsearch : mm.getFreeVmrgArea vmaid size = .ok (newrg, after)) :
    after.mmap.length = mm.mmap.length ∧ mm.mmap ≠ [] := by
  unfold MmStruct.getFreeVmrgArea at hsearch
  obtain ⟨position, -, hsearch⟩ := bind_eq_ok.mp hsearch
  obtain ⟨vma, hvma, hsearch⟩ := bind_eq_ok.mp hsearch
  obtain ⟨⟨found, list⟩, -, hsearch⟩ := bind_eq_ok.mp hsearch
  cases hsearch
  cases position with
  | none => cases hvma
  | some index =>
      refine ⟨by simp only [MmStruct.setVmaAt, List.length_set], fun hnil => ?_⟩
      unfold MmStruct.vmaAt at hvma
      rw [hnil] at hvma
      cases hvma

/-- `__alloc` never completes with a failure. Its only failing branch is for an area that
is not there, and without an area the search before it does not complete. -/
theorem alloc_status {status : Int} {addr : Option Addr}
    (halloc : alloc pidOf junk krnl pid vmaid rgid size = .ok (status, addr, next)) :
    status = 0 := by
  obtain ⟨found, mm, hsearch, hends⟩ := alloc_ends halloc
  cases hends with
  | taken hset => rfl
  | grown hlookup hvma hregs hcall hset => rfl
  | noArea hlookup =>
      obtain ⟨hlength, harea⟩ := getFreeVmrgArea_area hsearch
      have hnil : mm.mmap = [] := by
        unfold MmStruct.getVmaByNum at hlookup
        split at hlookup
        next hnil => exact hnil
        next => obtain ⟨_, _, hsome⟩ := map_eq_ok.mp hlookup; cases hsome
      rw [hnil] at hlength
      exact absurd (List.length_eq_zero_iff.mp hlength.symm) harea

/-- Without a fit the search leaves the descriptor as it is. -/
theorem getFreeVmrgArea_of_no_fit {mm after : MmStruct} {newrg : Option VmRgStruct}
    {vma : VmAreaStruct} {size : Int}
    (harea : mm.getVmaByNum vmaid >>= mm.vmaAt = .ok vma)
    (hnone : ∀ rg ∈ vma.vmFreergList.nodes, ¬ rg.Fits (ofCInt size))
    (hsearch : mm.getFreeVmrgArea vmaid size = .ok (newrg, after)) :
    newrg = none ∧ after = mm := by
  obtain ⟨position, hposition, hvma⟩ := bind_eq_ok.mp harea
  unfold MmStruct.getFreeVmrgArea at hsearch
  simp only [hposition, hvma, ok_bind] at hsearch
  obtain ⟨found, hfound, hresult⟩ := bind_eq_ok.mp hsearch
  cases searchRegion_eq_ok_of_no_fit hnone hfound
  cases hresult
  exact ⟨rfl, MmStruct.setVmaAt_vmaAt hvma⟩

/-- An assignment to a register of the table can be read back. -/
theorem symrg_of_setSymrg {mm after : MmStruct} {rg : VmRgStruct}
    (hset : mm.setSymrg rgid rg = .ok after) : after.symrg rgid = .ok rg := by
  obtain ⟨index, rfl⟩ := MmStruct.exists_fin_of_setSymrg hset
  rw [MmStruct.setSymrg_of_fin] at hset
  cases hset
  rw [MmStruct.symrg_of_fin]
  exact congrArg Except.ok (Function.update_self ..)

/-! ## Failures go unreported -/

/-- No allocation is ever reported as failed, whether it can be served or not. Where no free
region fits, a call that completes returns 0, and the register covers the addresses from the
break on, even if the area was not given them. -/
theorem failure_unreported (pidOf : Proc → Except Fault Word32) (junk : Byte)
    (krnl : Krnl Proc) (pid : Word32) (vmaid rgid : Int) (size : Addr) :
    ¬ FailureReported pidOf junk krnl pid vmaid rgid size ∧
      ∀ vma, krnl.mm.getVmaByNum vmaid >>= krnl.mm.vmaAt = .ok vma →
        (∀ rg ∈ vma.vmFreergList.nodes, ¬ rg.Fits (ofCInt (toCInt size))) →
        ∀ status addr after,
          alloc pidOf junk krnl pid vmaid rgid size = .ok (status, addr, after) →
            status = 0 ∧ addr = some vma.sbrk ∧
              after.mm.symrg rgid = .ok { rgStart := vma.sbrk, rgEnd := vma.sbrk + size } := by
  constructor
  · rintro ⟨addr, after, halloc, -⟩
    have hstatus := alloc_status halloc
    omega
  · intro vma harea hnone status addr after halloc
    refine ⟨alloc_status halloc, ?_⟩
    obtain ⟨found, mm, hsearch, hends⟩ := alloc_ends halloc
    obtain ⟨rfl, rfl⟩ := getFreeVmrgArea_of_no_fit harea hnone hsearch
    cases hends with
    | noArea hlookup =>
        rw [hlookup] at harea
        cases harea
    | grown hlookup hvma hregs hcall hset =>
        rw [hlookup, ok_bind, hvma] at harea
        cases harea
        exact ⟨rfl, symrg_of_setSymrg hset⟩

/-- A kernel whose running list does not have the process. -/
def unlistedProcess : Krnl Unit := { singleProcess with runningList := ProcQueue.zero }

/-- The area that `init_mm` sets up. -/
def firstArea : VmAreaStruct where
  vmId := 0
  vmStart := 0
  vmEnd := 0
  sbrk := 0
  vmFreergList := { nodes := [{ rgStart := 0, rgEnd := 0 }], stop := .null }

theorem cannotServe_unlisted :
    CannotServe (fun _ => .ok 1) unlistedProcess 1 0 firstArea 100 where
  positive := by decide
  area := rfl
  noFit := by decide
  noGrowth := Or.inl ⟨unlistedProcess, rfl⟩

theorem failure_unreported_unlisted :
    ¬ FailureReported (fun _ => .ok 1) 0 unlistedProcess 1 0 0 100 ∧
      ∀ status addr after, alloc (fun _ => .ok 1) 0 unlistedProcess 1 0 0 100 =
          .ok (status, addr, after) →
        status = 0 ∧ addr = some firstArea.sbrk ∧
          after.mm.symrg 0 = .ok { rgStart := firstArea.sbrk, rgEnd := firstArea.sbrk + 100 } :=
  have hunreported := failure_unreported (fun _ => .ok 1) 0 unlistedProcess 1 0 0 100
  ⟨hunreported.1, hunreported.2 firstArea cannotServe_unlisted.area cannotServe_unlisted.noFit⟩

/-- For a process that is not listed the allocation of 100 bytes returns 0. -/
theorem not_failureReported_unlisted :
    CannotServe (fun _ => .ok 1) unlistedProcess 1 0 firstArea 100 ∧
      ¬ FailureReported (fun _ => .ok 1) 0 unlistedProcess 1 0 0 100 ∧
      (alloc (fun _ => .ok 1) 0 unlistedProcess 1 0 0 100).map (fun result => result.1) =
        .ok 0 := by
  have hstatus : (alloc (fun _ => .ok 1) 0 unlistedProcess 1 0 0 100).map
      (fun result => result.1) = .ok 0 := by rfl
  refine ⟨cannotServe_unlisted, ?_, hstatus⟩
  rintro ⟨addr, after, halloc, -⟩
  rw [halloc] at hstatus
  cases hstatus

end SimpleOs
