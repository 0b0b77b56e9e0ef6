import SimpleOs.Foundation.Runs
import SimpleOs.Kernel.AllocFailure
import SimpleOs.Memory.AreaLookup

/-! # The size of an allocated region

A region that `__alloc` adds at the break of the area has the size that was asked for. One
that it cuts from a free region has that size as the search sees it, narrowed to `int` and
widened again. So a size from `2 ^ 31` on is served by a free region with another one.
-/

namespace SimpleOs

open MmStruct

variable {Proc : Type}

/-- The size as the search for a free region sees it. -/
def searchedSize (size : Addr) : Addr := ofCInt (toCInt size)

/-- The search cuts the new region from the free region that starts there. It is the first
that fits, it does not start at the address that counts as not found, and the link behind it
can be followed where it is used up. -/
def VmAreaStruct.Cuts (vma : VmAreaStruct) (size start : Addr) : Prop :=
  ∃ before fit after, vma.vmFreergList.nodes = before ++ fit :: after ∧
    (∀ rg ∈ before, ¬ rg.Fits size) ∧ fit.Fits size ∧ fit.rgStart = start ∧ start ≠ -1 ∧
    (after ≠ [] ∨ start + size < fit.rgEnd ∨ vma.vmFreergList.stop = .null)

/-! ## The search -/

/-- Taking a region completes unless the node is used up and its link was never written. -/
theorem exists_takeRegion_iff {size : Addr} {stop : ListEnd} {fit : VmRgStruct}
    {after : List VmRgStruct} :
    (∃ list, takeRegion size stop fit after = .ok list) ↔
      after ≠ [] ∨ fit.rgStart + size < fit.rgEnd ∨ stop = .null := by
  by_cases hrest : fit.rgStart + size < fit.rgEnd
  · refine iff_of_true ?_ (Or.inr (Or.inl hrest))
    cases after with
    | nil =>
        unfold takeRegion
        rw [if_pos hrest]
        exact ⟨_, rfl⟩
    | cons nextrg rest =>
        simp only [takeRegion, if_pos hrest]
        exact ⟨_, rfl⟩
  · cases after with
    | cons nextrg rest =>
        refine iff_of_true ?_ (Or.inl (List.cons_ne_nil _ _))
        simp only [takeRegion, if_neg hrest]
        exact ⟨_, rfl⟩
    | nil =>
        unfold takeRegion
        rw [if_neg hrest]
        cases stop with
        | null => exact iff_of_true ⟨_, rfl⟩ (Or.inr (Or.inr rfl))
        | wild =>
            refine iff_of_false (fun ⟨_, hlist⟩ => by cases hlist) ?_
            rintro (hnonempty | hleft | hnull)
            · exact hnonempty rfl
            · exact hrest hleft
            · cases hnull

variable {mm after : MmStruct} {vmaid size : Int} {vma : VmAreaStruct}

/-- A search changes the free list of the area only. It finds a region exactly where the area
cuts one, and the region has the searched size. -/
theorem getFreeVmrgArea_spec {found : Option VmRgStruct}
    (harea : mm.getVmaByNum vmaid >>= mm.vmaAt = .ok vma)
    (hsearch : mm.getFreeVmrgArea vmaid size = .ok (found, after)) :
    (∃ curVma list, mm.getVmaByNum vmaid = .ok curVma ∧ mm.vmaAt curVma = .ok vma ∧
        after = mm.setVmaAt curVma { vma with vmFreergList := list }) ∧
      ∀ rg, found = some rg →
        vma.Cuts (ofCInt size) rg.rgStart ∧ rg.rgEnd = rg.rgStart + ofCInt size := by
  obtain ⟨curVma, hcurVma, hvma⟩ := bind_eq_ok.mp harea
  unfold getFreeVmrgArea at hsearch
  simp only [hcurVma, hvma, ok_bind] at hsearch
  obtain ⟨⟨newrg, list⟩, hregion, hresult⟩ := bind_eq_ok.mp hsearch
  cases hresult
  refine ⟨⟨curVma, list, hcurVma, hvma, rfl⟩, fun rg hrg => ?_⟩
  obtain ⟨hsome, hstart⟩ := Option.filter_eq_some_iff.mp hrg
  have hfit : ¬ ∀ rg ∈ vma.vmFreergList.nodes, ¬ rg.Fits (ofCInt size) := by
    intro hnone
    cases searchRegion_eq_ok_of_no_fit hnone hregion
    cases hsome
  obtain ⟨before, fit, rest, hnodes, hfits, hbefore⟩ := exists_first_fit hfit
  rw [hnodes, searchRegion_of_fit hbefore hfits] at hregion
  obtain ⟨taken, htaken, hpair⟩ := map_eq_ok.mp hregion
  cases hpair
  cases hsome
  refine ⟨⟨before, fit, rest, hnodes, hbefore, hfits, rfl, bne_iff_ne.mp hstart, ?_⟩, rfl⟩
  exact exists_takeRegion_iff.mp ⟨taken, htaken⟩

theorem getFreeVmrgArea_of_cuts {start : Addr}
    (harea : mm.getVmaByNum vmaid >>= mm.vmaAt = .ok vma)
    (hcuts : vma.Cuts (ofCInt size) start) :
    ∃ after, mm.getFreeVmrgArea vmaid size =
      .ok (some { rgStart := start, rgEnd := start + ofCInt size }, after) := by
  obtain ⟨curVma, hcurVma, hvma⟩ := bind_eq_ok.mp harea
  obtain ⟨before, fit, rest, hnodes, hbefore, hfits, rfl, hstart, htake⟩ := hcuts
  obtain ⟨list, hlist⟩ := exists_takeRegion_iff.mpr htake
  refine ⟨mm.setVmaAt curVma
    { vma with vmFreergList := { list with nodes := before ++ list.nodes } }, ?_⟩
  unfold getFreeVmrgArea
  simp only [hcurVma, hvma, ok_bind, hnodes, searchRegion_of_fit hbefore hfits, hlist]
  simp only [Except.map, ok_bind, Option.filter_some, if_pos (bne_iff_ne.mpr hstart)]
  rfl

/-! ## Areas after a write -/

/-- The lookup of an area depends on the numbers of the areas only. -/
theorem getVmaByNum_congr {other : MmStruct}
    (hids : other.mmap.map VmAreaStruct.vmId = mm.mmap.map VmAreaStruct.vmId) (vmaid : Int) :
    other.getVmaByNum vmaid = mm.getVmaByNum vmaid := by
  cases hmmap : mm.mmap with
  | nil =>
      rw [hmmap, List.map_nil, List.map_eq_nil_iff] at hids
      unfold getVmaByNum
      rw [hids, hmmap]
  | cons first rest =>
      have hnonempty : mm.mmap ≠ [] := by
        rw [hmmap]
        exact List.cons_ne_nil _ _
      have hother : other.mmap ≠ [] := by
        intro hnil
        rw [hnil, List.map_nil, eq_comm, List.map_eq_nil_iff] at hids
        exact hnonempty hids
      have hfind : ∀ areas : List VmAreaStruct, areas.findIdx? (stopsAt vmaid) =
          (areas.map VmAreaStruct.vmId).findIdx? fun vmId => decide (¬ toCInt vmId < vmaid) := by
        intro areas
        rw [List.findIdx?_map]
        rfl
      rw [getVmaByNum_eq hother, getVmaByNum_eq hnonempty, hfind, hfind, hids]

/-- An area that is written in place keeps its number. -/
theorem map_vmId_setVmaAt {curVma : Option Nat} {changed : VmAreaStruct}
    (hvma : mm.vmaAt curVma = .ok vma) (hid : changed.vmId = vma.vmId) :
    (mm.setVmaAt curVma changed).mmap.map VmAreaStruct.vmId =
      mm.mmap.map VmAreaStruct.vmId := by
  cases curVma with
  | none => rfl
  | some index =>
      unfold vmaAt at hvma
      simp only [Option.bind_some] at hvma
      cases hfound : mm.mmap[index]? with
      | none =>
          rw [hfound] at hvma
          cases hvma
      | some found =>
          rw [hfound] at hvma
          cases hvma
          obtain ⟨hlt, hget⟩ := List.getElem?_eq_some_iff.mp hfound
          simp only [setVmaAt]
          rw [List.map_set, hid, ← hget, ← List.getElem_map VmAreaStruct.vmId
            (h := by rw [List.length_map]; exact hlt)]
          exact List.set_getElem_self _

theorem vmaAt_setVmaAt {curVma : Option Nat} {changed : VmAreaStruct}
    (hvma : mm.vmaAt curVma = .ok vma) :
    (mm.setVmaAt curVma changed).vmaAt curVma = .ok changed := by
  cases curVma with
  | none => cases hvma
  | some index =>
      unfold vmaAt at hvma ⊢
      simp only [Option.bind_some, setVmaAt] at hvma ⊢
      cases hfound : mm.mmap[index]? with
      | none =>
          rw [hfound] at hvma
          cases hvma
      | some found =>
          rw [List.getElem?_set_self (List.getElem?_eq_some_iff.mp hfound).1]

theorem symrgtbl_setVmaAt (mm : MmStruct) (curVma : Option Nat) (changed : VmAreaStruct) :
    (mm.setVmaAt curVma changed).symrgtbl = mm.symrgtbl := by
  cases curVma with
  | none => rfl
  | some index => rfl

/-! ## The call -/

/-- Growing an area leaves the table of regions alone. -/
theorem incVmaLimit_symrgtbl {incSz : Addr} {status : Int}
    (hgrow : mm.incVmaLimit vmaid incSz = .ok (status, after)) :
    after.symrgtbl = mm.symrgtbl := by
  obtain ⟨curVma, vma, -, -, rfl | rfl⟩ := incVmaLimit_cases hgrow
  · rfl
  · exact symrgtbl_setVmaAt mm curVma _

section Call

variable {pidOf : Proc → Except Fault Word32} {junk : Byte} {krnl next : Krnl Proc}
  {pid : Word32}

/-- The growth that `__alloc` asks for is not made when the caller is not found. -/
theorem syscall_grow_cases {regs final : ScRegs} {status : Int} (hop : regs.a1 = sysmemIncOp)
    (hcall : syscall pidOf junk krnl pid 17 regs = .ok (status, next, final)) :
    next.mm = krnl.mm ∨
      ∃ limit, krnl.mm.incVmaLimit (toCInt regs.a2) (toAddr32 regs.a3) =
        .ok (limit, next.mm) := by
  change sysMemmap pidOf junk krnl pid regs = _ at hcall
  obtain ⟨⟨caller, found⟩, hfind, hcall⟩ := bind_eq_ok.mp hcall
  have hfound : found.mm = krnl.mm := by rw [findCaller_eq_ok hfind]
  rw [← hfound]
  cases caller with
  | none =>
      cases hcall
      exact Or.inl rfl
  | some proc =>
      obtain ⟨⟨grown, after⟩, hmemop, hcall⟩ := bind_eq_ok.mp hcall
      cases hcall
      have hinc : toCInt regs.a1 = 2 := by
        rw [hop]
        decide
      unfold memop at hmemop
      rw [hinc] at hmemop
      obtain ⟨⟨limit, mm⟩, hgrow, hmemop⟩ := bind_eq_ok.mp hmemop
      cases hmemop
      exact Or.inr ⟨limit, hgrow⟩

/-- The growth leaves the table of regions alone. -/
theorem syscall_grow_symrgtbl {regs final : ScRegs} {status : Int}
    (hop : regs.a1 = sysmemIncOp)
    (hcall : syscall pidOf junk krnl pid 17 regs = .ok (status, next, final)) :
    next.mm.symrgtbl = krnl.mm.symrgtbl := by
  rcases syscall_grow_cases hop hcall with hsame | ⟨limit, hgrow⟩
  · rw [hsame]
  · exact incVmaLimit_symrgtbl hgrow

variable {rgid : Fin pagingMaxSymtblSz} {size : Addr} {vma : VmAreaStruct}

/-- An allocation that completes writes one register. Its region is cut from a free region at
the searched size, or added at the break at the size that was asked for. -/
theorem alloc_region {status : Int} {addr : Option Addr}
    (harea : krnl.mm.getVmaByNum vmaid >>= krnl.mm.vmaAt = .ok vma)
    (halloc : alloc pidOf junk krnl pid vmaid rgid.val size = .ok (status, addr, next)) :
    ∃ rg, next.mm.symrgtbl = Function.update krnl.mm.symrgtbl rgid rg ∧
      addr = some rg.rgStart ∧
      (vma.Cuts (searchedSize size) rg.rgStart ∧ rg.rgEnd = rg.rgStart + searchedSize size ∨
        rg = { rgStart := vma.sbrk, rgEnd := vma.sbrk + size }) := by
  obtain ⟨found, mm, hsearch, hends⟩ := alloc_ends halloc
  obtain ⟨⟨curVma, list, hcurVma, hvma, rfl⟩, hcut⟩ := getFreeVmrgArea_spec harea hsearch
  have htable := symrgtbl_setVmaAt krnl.mm curVma { vma with vmFreergList := list }
  have hagain := getVmaByNum_congr
    (map_vmId_setVmaAt hvma (show { vma with vmFreergList := list }.vmId = vma.vmId from rfl))
    vmaid
  rw [hcurVma] at hagain
  cases hends with
  | @taken rg _ hset =>
      rw [setSymrg_of_fin] at hset
      cases hset
      refine ⟨rg, ?_, rfl, Or.inl (hcut rg rfl)⟩
      rw [← htable]
  | noArea hlookup =>
      obtain rfl := Except.ok.inj (hagain.symm.trans hlookup)
      cases hvma
  | grown hlookup hfound hregs hcall hset =>
      obtain rfl := Except.ok.inj (hagain.symm.trans hlookup)
      obtain rfl := Except.ok.inj ((vmaAt_setVmaAt hvma).symm.trans hfound)
      subst hregs
      have hgrown := syscall_grow_symrgtbl rfl hcall
      rw [setSymrg_of_fin] at hset
      cases hset
      refine ⟨_, ?_, rfl, Or.inr rfl⟩
      rw [hgrown]
      exact congrArg (Function.update · rgid _) htable

/-- An allocation whose region is cut completes. -/
theorem exists_alloc_of_cuts {start : Addr}
    (harea : krnl.mm.getVmaByNum vmaid >>= krnl.mm.vmaAt = .ok vma)
    (hcuts : vma.Cuts (searchedSize size) start) :
    ∃ addr next, alloc pidOf junk krnl pid vmaid rgid.val size = .ok (0, addr, next) ∧
      next.mm.symrgtbl rgid = { rgStart := start, rgEnd := start + searchedSize size } := by
  obtain ⟨after, hsearch⟩ := getFreeVmrgArea_of_cuts harea hcuts
  unfold alloc
  simp only [hsearch, ok_bind, setSymrg_of_fin]
  exact ⟨_, _, rfl, Function.update_self ..⟩

end Call

/-! ## Exact sizes -/

/-- An allocation that returns 0 leaves a region of the right measure in the register, returns
its start, and changes no other register. -/
def AllocExact (measured : VmRgStruct → Prop) (pidOf : Proc → Except Fault Word32) (junk : Byte)
    (krnl : Krnl Proc) (pid : Word32) (vmaid : Int) (rgid : Fin pagingMaxSymtblSz)
    (size : Addr) : Prop :=
  ∀ addr next, alloc pidOf junk krnl pid vmaid rgid.val size = .ok (0, addr, next) →
    measured (next.mm.symrgtbl rgid) ∧ addr = some (next.mm.symrgtbl rgid).rgStart ∧
      ∀ other, other ≠ rgid → next.mm.symrgtbl other = krnl.mm.symrgtbl other

/-- The end minus the start of the region, as the words that they are, is the size. -/
def VmRgStruct.Measures (size : Addr) (rg : VmRgStruct) : Prop := rg.rgEnd - rg.rgStart = size

/-- The region has so many addresses from its start up, and none of them wraps. -/
def VmRgStruct.Spans (size : Addr) (rg : VmRgStruct) : Prop :=
  rg.rgStart.toNat + size.toNat = rg.rgEnd.toNat

section Exact

variable {pidOf : Proc → Except Fault Word32} {junk : Byte} {krnl : Krnl Proc} {pid : Word32}
  {rgid : Fin pagingMaxSymtblSz} {size : Addr} {vma : VmAreaStruct}

/-- For a measure that the region at the break has, an allocation is exact when the region that
would be cut has it too. -/
theorem allocExact_iff_cut {measured : VmRgStruct → Prop}
    (harea : krnl.mm.getVmaByNum vmaid >>= krnl.mm.vmaAt = .ok vma)
    (hbreak : measured { rgStart := vma.sbrk, rgEnd := vma.sbrk + size }) :
    AllocExact measured pidOf junk krnl pid vmaid rgid size ↔
      ∀ start, vma.Cuts (searchedSize size) start →
        measured { rgStart := start, rgEnd := start + searchedSize size } := by
  constructor
  · intro hexact start hcuts
    obtain ⟨addr, next, halloc, hregion⟩ := exists_alloc_of_cuts harea hcuts
    rw [← hregion]
    exact (hexact addr next halloc).1
  · intro hcut addr next halloc
    obtain ⟨rg, htable, haddr, hcase⟩ := alloc_region harea halloc
    rw [htable, Function.update_self]
    refine ⟨?_, haddr, fun other hother => Function.update_of_ne hother _ _⟩
    rcases hcase with ⟨hcuts, hend⟩ | rfl
    · have hmeasured := hcut rg.rgStart hcuts
      rwa [← hend] at hmeasured
    · exact hbreak

/-- The recorded region has the size that was asked for exactly when no free region is cut or
narrowing the size does not change it. It also spans that many addresses when moreover the
end of the region that is cut does not wrap. -/
theorem allocExact_iff (pidOf : Proc → Except Fault Word32) (junk : Byte) (krnl : Krnl Proc)
    (pid : Word32) (vmaid : Int) (rgid : Fin pagingMaxSymtblSz) (size : Addr)
    (vma : VmAreaStruct) (harea : krnl.mm.getVmaByNum vmaid >>= krnl.mm.vmaAt = .ok vma)
    (hsum : vma.sbrk.toNat + size.toNat < 2 ^ 64) :
    (AllocExact (VmRgStruct.Measures size) pidOf junk krnl pid vmaid rgid size ↔
        ∀ start, vma.Cuts (searchedSize size) start → searchedSize size = size) ∧
      (AllocExact (VmRgStruct.Spans size) pidOf junk krnl pid vmaid rgid size ↔
        ∀ start, vma.Cuts (searchedSize size) start →
          searchedSize size = size ∧ start.toNat + size.toNat < 2 ^ 64) := by
  have hdifference : ∀ start offset : Addr, start + offset - start = offset := by
    intro start offset
    bv_omega
  constructor
  · rw [allocExact_iff_cut harea (hdifference _ _)]
    refine forall_congr' fun start => forall_congr' fun _ => ?_
    unfold VmRgStruct.Measures
    rw [hdifference]
  · rw [allocExact_iff_cut harea]
    · refine forall_congr' fun start => forall_congr' fun _ => ?_
      unfold VmRgStruct.Spans
      simp only [BitVec.toNat_add]
      constructor
      · intro hspans
        have hsame : searchedSize size = size := by
          apply BitVec.eq_of_toNat_eq
          omega
        exact ⟨hsame, by omega⟩
      · rintro ⟨hsame, hfits⟩
        rw [hsame]
        omega
    · unfold VmRgStruct.Spans
      simp only [BitVec.toNat_add]
      omega

end Exact

/-- A process that has freed a region of 200 bytes at 0. -/
def freedRegion : Krnl Unit :=
  { singleProcess with
    mm := { initMm .null with
      mmap := [{ firstArea with
        vmFreergList :=
          { nodes := [{ rgStart := 0, rgEnd := 200 }, { rgStart := 0, rgEnd := 0 }]
            stop := .null } }] } }

/-- Its area. -/
def freedArea : VmAreaStruct :=
  { firstArea with
    vmFreergList :=
      { nodes := [{ rgStart := 0, rgEnd := 200 }, { rgStart := 0, rgEnd := 0 }], stop := .null } }

/-- An allocation of 100 bytes is cut from that region, and is exact. -/
theorem allocExact_iff_freedRegion :
    AllocExact (VmRgStruct.Measures 100) (fun _ => .ok 1) 0 freedRegion 1 0 1 100 ∧
      AllocExact (VmRgStruct.Spans 100) (fun _ => .ok 1) 0 freedRegion 1 0 1 100 := by
  obtain ⟨hmeasures, hspans⟩ := allocExact_iff (fun _ => .ok 1) 0 freedRegion 1 0 1 100 freedArea
    rfl (by decide)
  have hsame : searchedSize 100 = 100 := by decide
  refine ⟨hmeasures.mpr fun _ _ => hsame, hspans.mpr fun start hcuts => ⟨hsame, ?_⟩⟩
  -- both free regions start at 0
  obtain ⟨before, fit, after, hnodes, -, -, rfl, -⟩ := hcuts
  have hfit : fit ∈ freedArea.vmFreergList.nodes := by rw [hnodes]; simp
  have hzero : fit.rgStart = 0 := by
    rcases List.mem_cons.mp hfit with rfl | hfit
    · rfl
    · rw [List.mem_singleton.mp hfit]
  rw [hzero]
  decide

/-- There an allocation of `2 ^ 32 + 100` bytes gets a region of 100 bytes. -/
theorem not_allocExact_freedRegion :
    ¬ AllocExact (VmRgStruct.Measures 0x100000064) (fun _ => .ok 1) 0 freedRegion 1 0 1
      0x100000064 := by
  intro hexact
  have hregion : (alloc (fun _ => .ok 1) 0 freedRegion 1 0 1 0x100000064).toOption.map
      (fun result => (result.1, result.2.2.mm.symrgtbl 1)) =
        some (0, { rgStart := 0, rgEnd := 100 }) := by decide +kernel
  obtain ⟨⟨status, addr, next⟩, halloc, hpair⟩ := Option.map_eq_some_iff.mp hregion
  obtain ⟨rfl, hnext⟩ := Prod.mk.inj hpair
  have hmeasures := (hexact addr next (Runs.toOption_eq_some_iff.mp halloc)).1
  rw [hnext] at hmeasures
  exact absurd hmeasures (by unfold VmRgStruct.Measures; decide)

end SimpleOs
