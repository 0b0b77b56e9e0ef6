import SimpleOs.Kernel.LibMem

/-! # The memory library on a descriptor that maps no page

No library call ever maps a page: growing an area maps no frame, and the access path
gives up before it reaches a device. So the descriptor keeps the form `init_mm` gave it,
and all that the calls change in it is where its regions lie. On such descriptors each
call refines an operation on `Regions`.
-/

namespace SimpleOs

variable {Proc : Type}

namespace MmStruct

/-- The form of a descriptor under library calls: one area whose break never moves, no
mapped page, no listed page. -/
structure Unmapped (mm : MmStruct) : Prop where
  pgd_some : mm.pgd.isSome = true
  pt_none : mm.pt = none
  fifo_nil : mm.fifoPgn = []
  leaf_zero : ∀ pgn, mm.leaf pgn = 0
  area : ∃ vma, mm.mmap = [vma] ∧ vma.vmId = 0 ∧ vma.sbrk = 0

theorem unmapped_initMm (garbage : ListEnd) : (initMm garbage).Unmapped where
  pgd_some := rfl
  pt_none := rfl
  fifo_nil := rfl
  leaf_zero := leaf_initMm garbage
  area := ⟨_, rfl, rfl, rfl⟩

variable {mm next : MmStruct} {vma : VmAreaStruct}

theorem Unmapped.setArea (hmm : mm.Unmapped) (vma : VmAreaStruct) (hid : vma.vmId = 0)
    (hsbrk : vma.sbrk = 0) :
    ({ mm with mmap := [vma] } : MmStruct).Unmapped where
  pgd_some := hmm.pgd_some
  pt_none := hmm.pt_none
  fifo_nil := hmm.fifo_nil
  leaf_zero := hmm.leaf_zero
  area := ⟨vma, rfl, hid, hsbrk⟩

theorem Unmapped.setTable (hmm : mm.Unmapped)
    (table : Fin pagingMaxSymtblSz → VmRgStruct) :
    ({ mm with symrgtbl := table } : MmStruct).Unmapped where
  pgd_some := hmm.pgd_some
  pt_none := hmm.pt_none
  fifo_nil := hmm.fifo_nil
  leaf_zero := hmm.leaf_zero
  area := hmm.area

/-! ## The single area -/

theorem getVmaByNum_of_single (hmmap : mm.mmap = [vma]) (hid : vma.vmId = 0) :
    mm.getVmaByNum 0 = .ok (some 0) := by
  have hreached : ¬ toCInt vma.vmId < 0 := by
    rw [hid]
    decide
  unfold getVmaByNum
  rw [hmmap]
  simp only [findVma, if_neg hreached]
  rfl

theorem vmaAt_of_single (hmmap : mm.mmap = [vma]) : mm.vmaAt (some 0) = .ok vma := by
  unfold vmaAt
  rw [hmmap]
  rfl

theorem setVmaAt_of_single (hmmap : mm.mmap = [vma]) (other : VmAreaStruct) :
    mm.setVmaAt (some 0) other = { mm with mmap := [other] } := by
  unfold setVmaAt
  rw [hmmap]
  rfl

theorem getFreeVmrgArea_of_single (hmmap : mm.mmap = [vma]) (hid : vma.vmId = 0) (size : Int) :
    mm.getFreeVmrgArea 0 size =
      (searchRegion (ofCInt size) vma.vmFreergList.stop vma.vmFreergList.nodes).map
        fun (newrg, list) => (newrg.filter fun rg => rg.rgStart != -1,
          { mm with mmap := [{ vma with vmFreergList := list }] }) := by
  unfold getFreeVmrgArea
  rw [getVmaByNum_of_single hmmap hid]
  simp only [ok_bind, vmaAt_of_single hmmap, setVmaAt_of_single hmmap]
  cases searchRegion (ofCInt size) vma.vmFreergList.stop vma.vmFreergList.nodes <;> rfl

theorem regions_eq_of_single (hmmap : mm.mmap = [vma]) :
    mm.regions = { table := mm.symrgtbl, free := vma.vmFreergList } := by
  unfold regions
  rw [hmmap]

/-- The search for a free region is a search of the free list, which it replaces. -/
theorem Unmapped.getFreeVmrgArea (hmm : mm.Unmapped) (size : Int) :
    (∃ fault, mm.getFreeVmrgArea 0 size = .error fault ∧
      searchRegion (ofCInt size) mm.regions.free.stop mm.regions.free.nodes = .error fault) ∨
    ∃ found list after, mm.getFreeVmrgArea 0 size =
        .ok (found.filter fun rg => rg.rgStart != -1, after) ∧
      searchRegion (ofCInt size) mm.regions.free.stop mm.regions.free.nodes =
        .ok (found, list) ∧
      after.Unmapped ∧ after.regions = { table := mm.regions.table, free := list } := by
  obtain ⟨vma, hmmap, hid, hsbrk⟩ := hmm.area
  rw [getFreeVmrgArea_of_single hmmap hid, regions_eq_of_single hmmap]
  cases searchRegion (ofCInt size) vma.vmFreergList.stop vma.vmFreergList.nodes with
  | error fault => exact Or.inl ⟨fault, rfl, rfl⟩
  | ok result =>
      exact Or.inr ⟨result.1, result.2, _, rfl, rfl,
        hmm.setArea { vma with vmFreergList := result.2 } hid hsbrk, rfl⟩

theorem exists_validate_of_single (hmmap : mm.mmap = [vma]) (hid : vma.vmId = 0)
    (vmastart vmaend : Addr) :
    ∃ status, mm.validateOverlapVmArea 0 vmastart vmaend = .ok status := by
  unfold validateOverlapVmArea
  rw [getVmaByNum_of_single hmmap hid]
  simp only [ok_bind, vmaAt_of_single hmmap]
  split
  · exact ⟨_, rfl⟩
  · split
    · exact ⟨_, rfl⟩
    · split <;> exact ⟨_, rfl⟩

/-- Growing the area changes nothing but its end. -/
theorem incVmaLimit_of_single (hmmap : mm.mmap = [vma]) (hid : vma.vmId = 0) (incSz : Addr) :
    ∃ status vmEnd, mm.incVmaLimit 0 incSz =
      .ok (status, { mm with mmap := [{ vma with vmEnd := vmEnd }] }) := by
  obtain ⟨status, hstatus⟩ :=
    exists_validate_of_single hmmap hid vma.sbrk (vma.sbrk + incSz)
  unfold incVmaLimit getVmAreaNodeAtBrk
  simp only [getVmaByNum_of_single hmmap hid, ok_bind, vmaAt_of_single hmmap,
    setVmaAt_of_single hmmap, pure_eq_ok, hstatus]
  split
  · refine ⟨-1, vma.vmEnd, ?_⟩
    rw [← hmmap]
  · exact ⟨0, vma.sbrk + incSz, rfl⟩

/-! ## Printing the page table -/

/-- A walk that changes no entry leaves the form and the regions alone. -/
theorem Unmapped.updatePte_id (hmm : mm.Unmapped) (pgn : Addr) :
    ∃ next, mm.updatePte pgn id = .ok next ∧ next.Unmapped ∧ next.regions = mm.regions := by
  obtain ⟨pgd, hpgd⟩ := Option.isSome_iff_exists.mp hmm.pgd_some
  obtain ⟨next, hnext⟩ := exists_updatePte hpgd pgn id
  obtain ⟨found, hfound, rfl⟩ := updatePte_eq_ok hnext
  refine ⟨_, hnext, ?_, rfl⟩
  refine
    { pgd_some := rfl, pt_none := hmm.pt_none, fifo_nil := hmm.fifo_nil
      leaf_zero := fun other => ?_, area := hmm.area }
  have hzero := hmm.leaf_zero other
  unfold leaf at hzero
  rw [hfound] at hzero
  exact (Radix.get_modify_id 0 4 found _ _).trans hzero

theorem Unmapped.printPgtbl (hmm : mm.Unmapped) :
    ∃ next, mm.printPgtbl = .ok next ∧ next.Unmapped ∧ next.regions = mm.regions := by
  obtain ⟨vma, hmmap, hid, -⟩ := hmm.area
  unfold MmStruct.printPgtbl
  simp only [getVmaByNum_of_single hmmap hid, ok_bind, vmaAt_of_single hmmap]
  -- the walk allocates the tables on its way, so the table changes and its entries do not
  refine exists_foldlM
    (fun walked : MmStruct => walked.Unmapped ∧ walked.regions = mm.regions) ⟨hmm, rfl⟩ ?_
  rintro walked pgit - ⟨hwalked, hsame⟩
  obtain ⟨next, hwalk, hform, hregions⟩ := hwalked.updatePte_id (BitVec.ofNat 64 pgit)
  exact ⟨next, hwalk, hform, hregions.trans hsame⟩

/-! ## Symbol regions by index -/

theorem symrg_of_fin (mm : MmStruct) (rgid : Fin pagingMaxSymtblSz) :
    mm.symrg rgid.val = .ok (mm.symrgtbl rgid) := by
  unfold symrg
  rw [dif_pos (register_inside rgid)]
  rfl

theorem setSymrg_of_fin (mm : MmStruct) (rgid : Fin pagingMaxSymtblSz) (rg : VmRgStruct) :
    mm.setSymrg rgid.val rg =
      .ok { mm with symrgtbl := Function.update mm.symrgtbl rgid rg } := by
  unfold setSymrg
  rw [dif_pos (register_inside rgid)]
  rfl

/-- An assignment to the table completes only inside it. -/
theorem exists_fin_of_setSymrg {rgid : Int} {rg : VmRgStruct}
    (hset : mm.setSymrg rgid rg = .ok next) :
    ∃ index : Fin pagingMaxSymtblSz, rgid = index.val := by
  unfold setSymrg at hset
  split at hset
  next hrange => exact ⟨⟨rgid.toNat, hrange.2⟩, (Int.toNat_of_nonneg hrange.1).symm⟩
  next => cases hset

theorem Unmapped.setSymrg (hmm : mm.Unmapped) (index : Fin pagingMaxSymtblSz)
    (rg : VmRgStruct) :
    ∃ after, mm.setSymrg index.val rg = .ok after ∧ after.Unmapped ∧ after.regions =
      { table := Function.update mm.regions.table index rg, free := mm.regions.free } :=
  ⟨_, setSymrg_of_fin mm index rg, hmm.setTable _, rfl⟩

/-- A region is enlisted in front of the free list, unless it is empty. -/
theorem Unmapped.enlist (hmm : mm.Unmapped) (rg : VmRgStruct) :
    ∃ after, mm.enlistVmFreergList rg = .ok after ∧ after.Unmapped ∧ after.regions =
      { table := mm.regions.table
        free := if rg.rgStart ≥ rg.rgEnd then mm.regions.free
          else enlistVmRgNode mm.regions.free rg } := by
  obtain ⟨vma, hmmap, hid, hsbrk⟩ := hmm.area
  unfold enlistVmFreergList
  rw [regions_eq_of_single hmmap, hmmap]
  by_cases hempty : rg.rgStart ≥ rg.rgEnd
  · simp only [if_pos hempty]
    exact ⟨mm, rfl, hmm, regions_eq_of_single hmmap⟩
  · simp only [if_neg hempty]
    exact ⟨_, rfl, hmm.setArea
      { vma with vmFreergList := enlistVmRgNode vma.vmFreergList rg } hid hsbrk, rfl⟩

end MmStruct

open MmStruct

variable {pidOf : Proc → Except Fault Word32} {junk : Byte} {krnl next : Krnl Proc}
  {pid : Word32}

/-! ## Allocating and freeing -/

/-- The search for the caller changes the running list only. -/
theorem findCaller_eq_ok {caller : Option Proc}
    (hfind : findCaller pidOf krnl pid = .ok (caller, next)) :
    next = { krnl with runningList := next.runningList } := by
  obtain ⟨⟨found, list⟩, -, hresult⟩ := map_eq_ok.mp hfind
  cases hresult
  rfl

theorem exists_searchPid (hpid : ∀ proc, ∃ procPid, pidOf proc = .ok procPid) (pid : Word32)
    (count : Nat) (list : ProcQueue Proc) :
    ∃ found, searchPid pidOf pid count list = .ok found := by
  induction count generalizing list with
  | zero => exact ⟨_, rfl⟩
  | succ count ih =>
      unfold searchPid
      rcases list.dequeue with ⟨_ | proc, rest⟩
      · exact ih rest
      · obtain ⟨procPid, hprocPid⟩ := hpid proc
        simp only [hprocPid, ok_bind]
        split
        · exact ⟨_, rfl⟩
        · exact ih _

/-- Where every pid can be read, the search completes. -/
theorem exists_findCaller (hpid : ∀ proc, ∃ procPid, pidOf proc = .ok procPid)
    (krnl : Krnl Proc) (pid : Word32) : ∃ found, findCaller pidOf krnl pid = .ok found := by
  obtain ⟨found, hfound⟩ :=
    exists_searchPid hpid pid krnl.runningList.size krnl.runningList
  exact ⟨_, map_eq_ok.mpr ⟨found, hfound, rfl⟩⟩

/-- The registers of the system call that `__alloc` makes for the first area. -/
def incRegs (incSz : Addr) : ScRegs where
  a1 := sysmemIncOp
  a2 := ofCInt 0
  a3 := incSz

theorem syscall_inc (pidOf : Proc → Except Fault Word32) (junk : Byte) (krnl : Krnl Proc)
    (pid : Word32) (incSz : Addr) :
    syscall pidOf junk krnl pid 17 (incRegs incSz) = (do
      let (caller, krnl) ← findCaller pidOf krnl pid
      match caller with
      | none => return (-1, krnl, incRegs incSz)
      | some _ =>
          let (_, mm) ← krnl.mm.incVmaLimit 0 (toAddr32 incSz)
          return (0, { krnl with mm := mm }, incRegs incSz)) := by
  have hcall : syscall pidOf junk krnl pid 17 (incRegs incSz) =
      sysMemmap pidOf junk krnl pid (incRegs incSz) := rfl
  have hop : toCInt (incRegs incSz).a1 = 2 := by
    change toCInt sysmemIncOp = 2
    decide
  have harea : toCInt (incRegs incSz).a2 = 0 := by
    change toCInt (ofCInt 0) = 0
    decide
  rw [hcall]
  unfold sysMemmap
  congr 1
  funext found
  obtain ⟨caller, krnl⟩ := found
  cases caller with
  | none => rfl
  | some proc =>
      simp only [memop, hop, harea]
      change (krnl.mm.incVmaLimit 0 (toAddr32 incSz) >>= _) >>= _ = _
      cases krnl.mm.incVmaLimit 0 (toAddr32 incSz) <;> rfl

/-- The system call moves no region, whether or not it finds the caller. -/
theorem syscall_inc_spec {incSz : Addr} {status : Int} {regs : ScRegs}
    (hcall : syscall pidOf junk krnl pid 17 (incRegs incSz) = .ok (status, next, regs))
    (hmm : krnl.mm.Unmapped) :
    next.mm.Unmapped ∧ next.mm.regions = krnl.mm.regions := by
  rw [syscall_inc] at hcall
  obtain ⟨⟨caller, found⟩, hfind, hrest⟩ := bind_eq_ok.mp hcall
  have hsame : found.mm = krnl.mm := by rw [findCaller_eq_ok hfind]
  rw [← hsame] at hmm ⊢
  cases caller with
  | none =>
      cases hrest
      exact ⟨hmm, rfl⟩
  | some proc =>
      obtain ⟨vma, hmmap, hid, hsbrk⟩ := hmm.area
      obtain ⟨grown, vmEnd, hgrow⟩ := incVmaLimit_of_single hmmap hid (toAddr32 incSz)
      simp only [hgrow, ok_bind] at hrest
      cases hrest
      refine ⟨hmm.setArea { vma with vmEnd := vmEnd } hid hsbrk, ?_⟩
      rw [regions_eq_of_single hmmap]
      rfl

/-- Where every pid can be read, the system call completes. -/
theorem exists_syscall_inc (krnl : Krnl Proc)
    (hpid : ∀ proc, ∃ procPid, pidOf proc = .ok procPid) (hmm : krnl.mm.Unmapped)
    (junk : Byte) (pid : Word32) (incSz : Addr) :
    ∃ result, syscall pidOf junk krnl pid 17 (incRegs incSz) = .ok result := by
  rw [syscall_inc]
  obtain ⟨⟨caller, found⟩, hfind⟩ := exists_findCaller hpid krnl pid
  have hsame : found.mm = krnl.mm := by rw [findCaller_eq_ok hfind]
  rw [hfind, ok_bind]
  cases caller with
  | none => exact ⟨_, rfl⟩
  | some proc =>
      obtain ⟨vma, hmmap, hid, -⟩ := hmm.area
      have hfound : found.mm.mmap = [vma] := by rw [hsame, hmmap]
      obtain ⟨grown, vmEnd, hgrow⟩ := incVmaLimit_of_single hfound hid (toAddr32 incSz)
      simp only [hgrow, ok_bind]
      exact ⟨_, rfl⟩

/-- `__alloc` refines the allocation of a region whose area has its break at 0. It
completes only for a register of the table. -/
theorem alloc_spec {rgid status : Int} {size : Addr} {addr : Option Addr}
    (hmm : krnl.mm.Unmapped)
    (halloc : alloc pidOf junk krnl pid 0 rgid size = .ok (status, addr, next)) :
    ∃ index : Fin pagingMaxSymtblSz, rgid = index.val ∧ status = 0 ∧ next.mm.Unmapped ∧
      krnl.mm.regions.alloc 0 index size = .ok next.mm.regions := by
  obtain ⟨rgnode, mm, hsearched, hends⟩ := alloc_ends halloc
  unfold Regions.alloc
  rcases hmm.getFreeVmrgArea (toCInt size) with ⟨fault, hfree, -⟩ |
    ⟨found, list, after, hfree, hsearch, hafter, hregions⟩
  · rw [hfree] at hsearched
    cases hsearched
  · obtain ⟨hfound, rfl⟩ := Prod.mk.inj (Except.ok.inj (hfree.symm.trans hsearched))
    obtain ⟨vma, hmmap, hid, hsbrk⟩ := hafter.area
    have hnumber := getVmaByNum_of_single hmmap hid
    rw [hsearch]
    cases hends with
    | @taken rg _ hset =>
        obtain ⟨index, rfl⟩ := exists_fin_of_setSymrg hset
        obtain ⟨target, htarget, hform, hsame⟩ := hafter.setSymrg index rg
        obtain rfl := Except.ok.inj (htarget.symm.trans hset)
        refine ⟨index, rfl, rfl, hform, ?_⟩
        rw [hsame, hregions]
        simp only [Except.map, hfound, Option.getD_some]
    | noArea hlookup =>
        rw [hnumber] at hlookup
        cases hlookup
    | grown hlookup hvma hregs hcall hset =>
        -- the new region starts at the break, which stays at 0 whatever the system call does
        rw [hnumber] at hlookup
        cases hlookup
        obtain rfl := Except.ok.inj ((vmaAt_of_single hmmap).symm.trans hvma)
        subst hregs
        obtain ⟨hgrown, hmoved⟩ := syscall_inc_spec hcall hafter
        obtain ⟨index, rfl⟩ := exists_fin_of_setSymrg hset
        obtain ⟨target, htarget, hform, hsame⟩ := hgrown.setSymrg index _
        obtain rfl := Except.ok.inj (htarget.symm.trans hset)
        refine ⟨index, rfl, rfl, hform, ?_⟩
        rw [hsame, hmoved, hregions, hsbrk]
        simp only [Except.map, hfound, Option.getD_none]

/-- Where every pid can be read, `__alloc` completes when the allocation of the region
does. -/
theorem exists_alloc {index : Fin pagingMaxSymtblSz} {size : Addr} {regions : Regions}
    (hpid : ∀ proc, ∃ procPid, pidOf proc = .ok procPid) (hmm : krnl.mm.Unmapped)
    (hregions : krnl.mm.regions.alloc 0 index size = .ok regions) (junk : Byte) (pid : Word32) :
    ∃ result, alloc pidOf junk krnl pid 0 index.val size = .ok result := by
  unfold Regions.alloc at hregions
  unfold alloc
  rcases hmm.getFreeVmrgArea (toCInt size) with ⟨fault, -, hsearch⟩ |
    ⟨found, list, after, hfree, hsearch, hafter, -⟩
  · rw [hsearch] at hregions
    cases hregions
  · rw [hfree, ok_bind]
    cases hfound : found.filter fun rg => rg.rgStart != -1 with
    | some rg =>
        simp only [setSymrg_of_fin, ok_bind]
        exact ⟨_, rfl⟩
    | none =>
        obtain ⟨vma, hmmap, hid, -⟩ := hafter.area
        obtain ⟨⟨status, grown, regs⟩, hcall⟩ := exists_syscall_inc
          { krnl with mm := after } hpid hafter junk pid (ofCInt (toCInt size))
        unfold incRegs at hcall
        simp only [getVmaByNum_of_single hmmap hid, ok_bind, vmaAt_of_single hmmap, hcall,
          setSymrg_of_fin]
        exact ⟨_, rfl⟩

/-- `__free` of a register of the table refines the release of its region. -/
theorem free_spec {mm : MmStruct} (hmm : mm.Unmapped) (index : Fin pagingMaxSymtblSz) :
    ∃ status after, free mm index.val = .ok (status, after) ∧ after.Unmapped ∧
      after.regions = mm.regions.release index := by
  have hrange : ¬ ((index.val : Int) < 0 ∨ (index.val : Int) > pagingMaxSymtblSz) := by
    have hlt := index.isLt
    omega
  have htable : mm.symrgtbl index = mm.regions.table index := rfl
  unfold free Regions.release
  rw [if_neg hrange, symrg_of_fin, ok_bind, htable]
  split
  next hempty =>
    -- an empty slot is refused, which is what releasing it amounts to
    have hrg : mm.regions.table index = { rgStart := 0, rgEnd := 0 } := by
      rcases hslot : mm.regions.table index with ⟨rgStart, rgEnd⟩
      rw [hslot] at hempty
      obtain ⟨rfl, rfl⟩ := hempty
      rfl
    refine ⟨-1, mm, rfl, hmm, ?_⟩
    have hsame : Function.update mm.regions.table index { rgStart := 0, rgEnd := 0 } =
        mm.regions.table := by
      rw [← hrg, Function.update_eq_self]
    rw [hsame, hrg]
    rfl
  next =>
    obtain ⟨cleared, hcleared, hform, htable⟩ :=
      hmm.setSymrg index { rgStart := 0, rgEnd := 0 }
    obtain ⟨after, hafter, hafterForm, hregions⟩ := hform.enlist (mm.regions.table index)
    refine ⟨0, after, ?_, hafterForm, ?_⟩
    · rw [hcleared, ok_bind, hafter]
      rfl
    · rw [hregions, htable]

/-! ## A process running alone -/

/-- The kernel after the loader has admitted a process: its descriptor is fresh. -/
def Krnl.initMm (krnl : Krnl Proc) (garbage : ListEnd) : Krnl Proc :=
  { krnl with mm := SimpleOs.initMm garbage }

/-- A machine with one process, whose pid is listed. -/
def singleProcess : Krnl Unit where
  runningList := ProcQueue.zero.enqueue ()
  mm := initMm .null
  mram := initMemphy ⟨[], 0, true, 0, ⟨[], .null⟩⟩ 1024 1 .null
  activeMswp := initMemphy ⟨[], 0, true, 0, ⟨[], .null⟩⟩ 1024 1 .null

end SimpleOs
