import SimpleOs.Memory.PageTable

/-! # Mapping pages and growing areas

The functions of `mm64.c` and `mm-vm.c` that map frames to pages, raise the limit of an
area and print the page table. The call that would fetch frames is commented out in
`vm_map_ram`, so growing an area maps no page.
-/

namespace SimpleOs

/-- `OVERLAP` -/
def overlap (_x1 _x2 _y1 _y2 : Addr) : Bool := false

namespace MmStruct

/-- The loop of `vmap_page_range` over the frames that are left. -/
def mapFrames (addr : Addr) (pgnum : Int) (mm : MmStruct) (retRg : VmRgStruct) (pgit : Nat) :
    List Addr → Except Fault (MmStruct × VmRgStruct)
  | [] => .ok (mm, retRg)
  | fpn :: rest =>
      if (pgit : Int) < pgnum then do
        let pgn := (addr + BitVec.ofNat 64 pgit * paging64Pagesz) >>> paging64AddrPtShift
        let mm ← mm.pteSetFpn pgn fpn
        mapFrames addr pgnum { mm with fifoPgn := pgn :: mm.fifoPgn }
          { retRg with rgEnd := retRg.rgEnd + paging64Pagesz } (pgit + 1) rest
      else .ok (mm, retRg)

/-- `vmap_page_range` -/
def vmapPageRange (mm : MmStruct) (addr : Addr) (pgnum : Int) (frames : List Addr) :
    Except Fault (MmStruct × VmRgStruct) :=
  mapFrames addr pgnum mm { rgStart := addr, rgEnd := addr } 0 frames

/-- `vm_map_ram`, with the list of frames it leaves `NULL`. -/
def vmMapRam (mm : MmStruct) (mapstart : Addr) (incpgnum : Int) : Except Fault MmStruct :=
  (mm.vmapPageRange mapstart incpgnum []).map Prod.fst

/-- One page of `vmap_pgd_memset`. The pattern goes to the table behind `pt`, not to the
leaf that the walk reaches. -/
def memsetPage (mm : MmStruct) (pgn : Addr) : Except Fault MmStruct := do
  let mm ← mm.updatePte pgn id
  match mm.pt with
  | none => .error .nullDeref
  | some pt =>
      return { mm with
        pt := some (Function.update pt (getPdFromPagenum pgn).2.2.2.2 0xdeadbeef) }

/-- `vmap_pgd_memset` -/
def vmapPgdMemset (mm : MmStruct) (addr : Addr) (pgnum : Int) : Except Fault MmStruct :=
  (List.range pgnum.toNat).foldlM
    (fun mm pgit => mm.memsetPage (addr / paging64Pagesz + BitVec.ofNat 64 pgit)) mm

/-- `get_vm_area_node_at_brk` -/
def getVmAreaNodeAtBrk (mm : MmStruct) (vmaid : Int) (size : Addr) : Except Fault VmRgStruct := do
  let curVma ← mm.getVmaByNum vmaid
  let vma ← mm.vmaAt curVma
  return { rgStart := vma.sbrk, rgEnd := vma.sbrk + size }

/-- `validate_overlap_vm_area` -/
def validateOverlapVmArea (mm : MmStruct) (vmaid : Int) (vmastart vmaend : Addr) :
    Except Fault Int :=
  if vmastart ≥ vmaend then .ok (-1)
  else if mm.mmap = [] then .ok (-1)
  else do
    let curArea ← mm.getVmaByNum vmaid
    let area ← mm.vmaAt curArea
    if (mm.mmap.zipIdx.any fun (vma, position) => curArea != some position &&
        overlap area.vmStart area.vmEnd vma.vmStart vma.vmEnd) then
      return -1
    else return 0

/-- `inc_vma_limit` -/
def incVmaLimit (mm : MmStruct) (vmaid : Int) (incSz : Addr) : Except Fault (Int × MmStruct) := do
  let incAmt := paging64PageAlignsz incSz
  let incnumpage := toCInt (incAmt / paging64Pagesz)
  let area ← mm.getVmAreaNodeAtBrk vmaid incSz
  let curVma ← mm.getVmaByNum vmaid
  let valid ← mm.validateOverlapVmArea vmaid area.rgStart area.rgEnd
  if valid < 0 then return (-1, mm)
  else
    let vma ← mm.vmaAt curVma
    let oldEnd := vma.vmEnd
    let mm := mm.setVmaAt curVma { vma with vmEnd := area.rgEnd }
    let mm ← mm.vmMapRam oldEnd incnumpage
    return (0, mm)

/-- `print_pgtbl(caller, 0, -1)`, which allocates the tables on the paths that it prints. -/
def printPgtbl (mm : MmStruct) : Except Fault MmStruct := do
  let curVma ← mm.getVmaByNum 0
  let vma ← mm.vmaAt curVma
  let pgnStart := (vma.vmStart >>> paging64AddrPtShift).toNat
  let pgnEnd := (vma.vmEnd >>> paging64AddrPtShift).toNat
  (List.range' pgnStart (pgnEnd + 1 - pgnStart)).foldlM
    (fun mm pgit => mm.updatePte (BitVec.ofNat 64 pgit) id) mm

/-! ## Growing -/

/-- A growth that completes has found an area. It refuses, or moves the end of the area to
the planned one. -/
theorem incVmaLimit_cases {mm next : MmStruct} {vmaid status : Int} {incSz : Addr}
    (hgrow : mm.incVmaLimit vmaid incSz = .ok (status, next)) :
    ∃ curVma vma, mm.getVmaByNum vmaid = .ok curVma ∧ mm.vmaAt curVma = .ok vma ∧
      (next = mm ∨ next = mm.setVmaAt curVma { vma with vmEnd := vma.sbrk + incSz }) := by
  unfold incVmaLimit getVmAreaNodeAtBrk at hgrow
  obtain ⟨area, harea, hgrow⟩ := bind_eq_ok.mp hgrow
  obtain ⟨curVma, hlookup, harea⟩ := bind_eq_ok.mp harea
  obtain ⟨vma, hvma, harea⟩ := bind_eq_ok.mp harea
  cases harea
  rw [hlookup, ok_bind] at hgrow
  obtain ⟨valid, -, hgrow⟩ := bind_eq_ok.mp hgrow
  refine ⟨curVma, vma, hlookup, hvma, ?_⟩
  split at hgrow
  next =>
    cases hgrow
    exact Or.inl rfl
  next =>
    rw [hvma, ok_bind] at hgrow
    obtain ⟨grown, hmap, hgrow⟩ := bind_eq_ok.mp hgrow
    cases hgrow
    -- no frame is fetched, so mapping leaves the descriptor as it is
    obtain ⟨⟨mapped, retRg⟩, hrange, rfl⟩ := map_eq_ok.mp hmap
    cases hrange
    exact Or.inr rfl

/-! ## Printing -/

/-- What `print_pgtbl` takes: an area 0, and a page directory unless the area is inverted. -/
def Prints (mm : MmStruct) : Prop :=
  ∃ curVma vma, mm.getVmaByNum 0 = .ok curVma ∧ mm.vmaAt curVma = .ok vma ∧
    (mm.pgd.isSome = true ∨
      (vma.vmEnd >>> paging64AddrPtShift).toNat < (vma.vmStart >>> paging64AddrPtShift).toNat)

variable {mm next : MmStruct}

theorem Prints.congr (hprints : mm.Prints) (hmmap : next.mmap = mm.mmap)
    (hpgd : next.pgd.isSome = mm.pgd.isSome) : next.Prints := by
  unfold Prints getVmaByNum vmaAt at hprints ⊢
  rw [hmmap, hpgd]
  exact hprints

/-- Walking to pages takes a page directory, unless there are none. -/
theorem exists_walks_iff (mm : MmStruct) (pages : List Nat) :
    (∃ next, pages.foldlM (fun mm pgit => mm.updatePte (BitVec.ofNat 64 pgit) id) mm =
        .ok next) ↔
      mm.pgd.isSome = true ∨ pages = [] := by
  induction pages generalizing mm with
  | nil => exact iff_of_true ⟨mm, rfl⟩ (Or.inr rfl)
  | cons pgit rest ih =>
      rw [List.foldlM_cons]
      cases hpgd : mm.pgd with
      | none =>
          have hfault : mm.updatePte (BitVec.ofNat 64 pgit) id = .error .nullDeref := by
            unfold updatePte
            rw [hpgd]
          rw [hfault]
          simp
      | some pgd =>
          obtain ⟨walked, hwalk⟩ := exists_updatePte hpgd (BitVec.ofNat 64 pgit) id
          obtain ⟨found, -, hwalked⟩ := updatePte_eq_ok hwalk
          rw [hwalk, ok_bind, ih walked, hwalked]
          simp

theorem exists_printPgtbl_iff : (∃ next, mm.printPgtbl = .ok next) ↔ mm.Prints := by
  have hempty : ∀ start stop : Nat, List.range' start (stop + 1 - start) = [] ↔ stop < start := by
    intro start stop
    rw [List.range'_eq_nil_iff]
    omega
  constructor
  · rintro ⟨next, hprint⟩
    obtain ⟨curVma, harea, hprint⟩ := bind_eq_ok.mp hprint
    obtain ⟨vma, hvma, hprint⟩ := bind_eq_ok.mp hprint
    refine ⟨curVma, vma, harea, hvma, ?_⟩
    rw [← hempty]
    exact (exists_walks_iff _ _).mp ⟨next, hprint⟩
  · rintro ⟨curVma, vma, harea, hvma, hpages⟩
    rw [← hempty] at hpages
    obtain ⟨next, hwalks⟩ := (exists_walks_iff mm _).mpr hpages
    refine ⟨next, ?_⟩
    unfold printPgtbl
    simp only [harea, hvma, ok_bind]
    exact hwalks

end MmStruct

end SimpleOs
