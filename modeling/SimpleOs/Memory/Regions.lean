import SimpleOs.Memory.Mm

/-! # Symbol regions and free regions

The parts of `libmem.c` that look up a symbol region, return a region to the free list
of the first area, and take a region from the free list of an area. Sizes passed to the
search are narrowed to `int`.
-/

namespace SimpleOs

namespace MmStruct

/-- `enlist_vm_freerg_list`, without its status. -/
def enlistVmFreergList (mm : MmStruct) (rgElmt : VmRgStruct) : Except Fault MmStruct :=
  match mm.mmap with
  | [] => .error .nullDeref
  | vma :: rest =>
      if rgElmt.rgStart ≥ rgElmt.rgEnd then .ok mm
      else
        .ok { mm with
          mmap := { vma with vmFreergList := enlistVmRgNode vma.vmFreergList rgElmt } :: rest }

/-- The pointer that `get_symrg_byid` returns. The range check admits one index past the
end of the table. -/
def getSymrgByid (rgid : Int) : Option Nat :=
  if rgid < 0 ∨ rgid > pagingMaxSymtblSz then none else some rgid.toNat

/-- `mm->symrgtbl[rgid]` as a value. -/
def symrg (mm : MmStruct) (rgid : Int) : Except Fault VmRgStruct :=
  if h : 0 ≤ rgid ∧ rgid.toNat < pagingMaxSymtblSz then .ok (mm.symrgtbl ⟨rgid.toNat, h.2⟩)
  else .error .outOfBounds

/-- `mm->symrgtbl[rgid]` as the target of an assignment. -/
def setSymrg (mm : MmStruct) (rgid : Int) (rg : VmRgStruct) : Except Fault MmStruct :=
  if h : 0 ≤ rgid ∧ rgid.toNat < pagingMaxSymtblSz then
    .ok { mm with symrgtbl := Function.update mm.symrgtbl ⟨rgid.toNat, h.2⟩ rg }
  else .error .outOfBounds

end MmStruct

/-- The test of the search for a free region, with the size widened to an address. -/
def VmRgStruct.Fits (size : Addr) (rg : VmRgStruct) : Prop := rg.rgStart + size ≤ rg.rgEnd

instance (size : Addr) : DecidablePred (VmRgStruct.Fits size) := fun rg =>
  inferInstanceAs (Decidable (rg.rgStart + size ≤ rg.rgEnd))

/-- A cleared region fits a request for nothing. -/
theorem VmRgStruct.fits_cleared {size : Addr} (hsize : size = 0) :
    VmRgStruct.Fits size { rgStart := 0, rgEnd := 0 } := by
  rw [hsize]
  decide

/-- What `get_free_vmrg_area` makes of the list from the chosen node on: the rest of its
region, or the next node in its place, or at the end of the list an empty region. -/
def takeRegion (size : Addr) (stop : ListEnd) (rgit : VmRgStruct) :
    List VmRgStruct → Except Fault (Chain VmRgStruct)
  | nextrg :: rest =>
      if rgit.rgStart + size < rgit.rgEnd then
        .ok { nodes := { rgit with rgStart := rgit.rgStart + size } :: nextrg :: rest
              stop := stop }
      else .ok { nodes := nextrg :: rest, stop := stop }
  | [] =>
      if rgit.rgStart + size < rgit.rgEnd then
        .ok { nodes := [{ rgit with rgStart := rgit.rgStart + size }], stop := stop }
      else stop.follow { nodes := [{ rgit with rgStart := rgit.rgEnd }], stop := .null }

/-- The loop of `get_free_vmrg_area`: the new region, if one is found, and the list. -/
def searchRegion (size : Addr) (stop : ListEnd) :
    List VmRgStruct → Except Fault (Option VmRgStruct × Chain VmRgStruct)
  | [] => stop.follow (none, { nodes := [], stop := stop })
  | rgit :: rest =>
      if rgit.Fits size then
        (takeRegion size stop rgit rest).map fun list =>
          (some { rgStart := rgit.rgStart, rgEnd := rgit.rgStart + size }, list)
      else
        (searchRegion size stop rest).map fun (newrg, list) =>
          (newrg, enlistVmRgNode list rgit)

/-- `get_free_vmrg_area`. A region found at the address `-1` counts as not found. -/
def MmStruct.getFreeVmrgArea (mm : MmStruct) (vmaid : Int) (size : Int) :
    Except Fault (Option VmRgStruct × MmStruct) := do
  let curVma ← mm.getVmaByNum vmaid
  let vma ← mm.vmaAt curVma
  let (newrg, list) ← searchRegion (ofCInt size) vma.vmFreergList.stop vma.vmFreergList.nodes
  let mm := mm.setVmaAt curVma { vma with vmFreergList := list }
  return (newrg.filter fun rg => rg.rgStart != -1, mm)

/-! ## Registers -/

/-- The register with the given number, if the table has it. -/
def register (rgid : Int) : Option (Fin pagingMaxSymtblSz) :=
  if h : 0 ≤ rgid ∧ rgid.toNat < pagingMaxSymtblSz then some ⟨rgid.toNat, h.2⟩ else none

theorem register_inside (index : Fin pagingMaxSymtblSz) :
    (0 : Int) ≤ index.val ∧ (index.val : Int).toNat < pagingMaxSymtblSz :=
  ⟨Int.natCast_nonneg _, index.isLt⟩

theorem register_of_fin (index : Fin pagingMaxSymtblSz) :
    register index.val = some index := by
  unfold register
  rw [dif_pos (register_inside index)]
  rfl

theorem register_eq_some {rgid : Int} {index : Fin pagingMaxSymtblSz}
    (hregister : register rgid = some index) : rgid = index.val := by
  unfold register at hregister
  split at hregister
  next hrange =>
    cases hregister
    exact (Int.toNat_of_nonneg hrange.1).symm
  next => cases hregister

/-- A number outside the table is refused, except the one just past its end. -/
theorem outside_of_register {rgid : Int} (hregister : register rgid = none)
    (hend : rgid ≠ pagingMaxSymtblSz) : rgid < 0 ∨ rgid > pagingMaxSymtblSz := by
  unfold register at hregister
  split at hregister
  next => cases hregister
  next hrange => omega

/-! ## The search by cases -/

/-- A search without a fit leaves the list as it is. -/
theorem searchRegion_of_no_fit {size : Addr} {stop : ListEnd} {nodes : List VmRgStruct}
    (hnone : ∀ rg ∈ nodes, ¬ rg.Fits size) :
    searchRegion size stop nodes = stop.follow (none, { nodes := nodes, stop := stop }) := by
  induction nodes with
  | nil => rfl
  | cons rg rest ih =>
      have hrest : ∀ other ∈ rest, ¬ other.Fits size :=
        fun other hother => hnone other (List.mem_cons_of_mem _ hother)
      unfold searchRegion
      rw [if_neg (hnone rg List.mem_cons_self), ih hrest]
      cases stop <;> rfl

/-- Without a fit the search completes only at a `NULL` link. -/
theorem searchRegion_eq_ok_of_no_fit {size : Addr} {list : Chain VmRgStruct}
    {found : Option VmRgStruct × Chain VmRgStruct} (hnone : ∀ rg ∈ list.nodes, ¬ rg.Fits size)
    (hsearch : searchRegion size list.stop list.nodes = .ok found) : found = (none, list) := by
  rw [searchRegion_of_no_fit hnone] at hsearch
  obtain ⟨nodes, stop⟩ := list
  cases stop with
  | null => exact (Except.ok.inj hsearch).symm
  | wild => cases hsearch

/-- A search takes its region from the first node that fits. -/
theorem searchRegion_of_fit {size : Addr} {stop : ListEnd} {before after : List VmRgStruct}
    {rg : VmRgStruct} (hbefore : ∀ other ∈ before, ¬ other.Fits size) (hfits : rg.Fits size) :
    searchRegion size stop (before ++ rg :: after) =
      (takeRegion size stop rg after).map fun list =>
        (some { rgStart := rg.rgStart, rgEnd := rg.rgStart + size },
          { list with nodes := before ++ list.nodes }) := by
  induction before with
  | nil =>
      rw [List.nil_append]
      unfold searchRegion
      rw [if_pos hfits]
      rfl
  | cons other rest ih =>
      have hrest : ∀ later ∈ rest, ¬ later.Fits size :=
        fun later hlater => hbefore later (List.mem_cons_of_mem _ hlater)
      rw [List.cons_append]
      unfold searchRegion
      rw [if_neg (hbefore other List.mem_cons_self), ih hrest]
      cases takeRegion size stop rg after <;> rfl

/-- The first node that fits splits the list. -/
theorem exists_first_fit {size : Addr} {nodes : List VmRgStruct}
    (hsome : ¬ ∀ rg ∈ nodes, ¬ rg.Fits size) :
    ∃ before rg after, nodes = before ++ rg :: after ∧ rg.Fits size ∧
      ∀ other ∈ before, ¬ other.Fits size := by
  induction nodes with
  | nil => exact absurd (fun _ hmem => by cases hmem) hsome
  | cons rg rest ih =>
      by_cases hfits : rg.Fits size
      · exact ⟨[], rg, rest, rfl, hfits, fun _ hmem => by cases hmem⟩
      · have hrest : ¬ ∀ other ∈ rest, ¬ other.Fits size := fun hnone =>
          hsome fun other hother => by
            rcases List.mem_cons.mp hother with rfl | hother
            · exact hfits
            · exact hnone other hother
        obtain ⟨before, found, after, rfl, hfound, hbefore⟩ := ih hrest
        refine ⟨rg :: before, found, after, rfl, hfound, fun other hother => ?_⟩
        rcases List.mem_cons.mp hother with rfl | hother
        · exact hfits
        · exact hbefore other hother

/-! ## The region state of a descriptor -/

/-- The part of a descriptor that decides where variables lie. -/
structure Regions where
  table : Fin pagingMaxSymtblSz → VmRgStruct
  free : Chain VmRgStruct

/-- The symbol regions, and the free regions of the first area. -/
def MmStruct.regions (mm : MmStruct) : Regions where
  table := mm.symrgtbl
  free :=
    match mm.mmap with
    | [] => { nodes := [], stop := .null }
    | vma :: _ => vma.vmFreergList

namespace Regions

/-- What `__alloc` does to the regions of an area whose break is at `sbrk`. -/
def alloc (sbrk : Addr) (regions : Regions) (rgid : Fin pagingMaxSymtblSz) (size : Addr) :
    Except Fault Regions :=
  (searchRegion (ofCInt (toCInt size)) regions.free.stop regions.free.nodes).map
    fun (newrg, list) =>
      let rg := (newrg.filter fun rg => rg.rgStart != -1).getD
        { rgStart := sbrk, rgEnd := sbrk + size }
      { table := Function.update regions.table rgid rg, free := list }

/-- What `__free` does to them. -/
def release (regions : Regions) (rgid : Fin pagingMaxSymtblSz) : Regions :=
  let rg := regions.table rgid
  { table := Function.update regions.table rgid { rgStart := 0, rgEnd := 0 }
    free := if rg.rgStart ≥ rg.rgEnd then regions.free else enlistVmRgNode regions.free rg }

end Regions

end SimpleOs
