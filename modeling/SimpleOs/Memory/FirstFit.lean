import Mathlib.Data.Set.Basic
import SimpleOs.Memory.Disjoint

/-! # First fit

On a free list of ordered, disjoint regions below the sign bit no addition wraps, and
the three updates that the search makes in place all come to the same thing: the front
of the first region that is large enough leaves the list, and the rest of that region
stays where it was.
-/

namespace SimpleOs

open VmRgStruct

/-- The number of addresses in a region. -/
def VmRgStruct.length (rg : VmRgStruct) : Nat := rg.rgEnd.toNat - rg.rgStart.toNat

/-- A free list as its users know it: it ends in `NULL`, and its regions are disjoint,
ordered and below the sign bit. -/
structure FreeList (list : Chain VmRgStruct) : Prop where
  terminated : list.stop = .null
  apart : list.nodes.Pairwise Apart
  ordered : ∀ rg ∈ list.nodes, rg.rgStart ≤ rg.rgEnd
  bounded : ∀ rg ∈ list.nodes, rg.rgEnd.toNat < 2 ^ 63

/-- The addresses that a list of regions covers. -/
def covered (nodes : List VmRgStruct) : Set Addr := {addr | ∃ rg ∈ nodes, rg.Contains addr}

/-- `newrg` is cut from the front of the first region with room for it, and what is left
of that region, at most one node, takes its place between its neighbours. -/
structure CutFirstFit (size : Nat) (nodes : List VmRgStruct) (newrg : VmRgStruct)
    (rest : List VmRgStruct) : Prop where
  position : ∃ before fit after left, nodes = before ++ fit :: after ∧
    (∀ rg ∈ before, rg.length < size) ∧ size ≤ fit.length ∧
    newrg.rgStart = fit.rgStart ∧ newrg.rgEnd.toNat = fit.rgStart.toNat + size ∧
    rest = before ++ left ++ after ∧ left.length ≤ 1 ∧
    ∀ part ∈ left, part.rgStart = newrg.rgEnd ∧ part.rgEnd = fit.rgEnd
  covers : covered rest = covered nodes \ {addr | newrg.Contains addr}

variable {list : Chain VmRgStruct} {nodes before after : List VmRgStruct}
  {rg fit : VmRgStruct} {size : Addr}

/-! ## Regions below the sign bit -/

/-- Adding a size to a start does not wrap, so the test of the search measures lengths. -/
theorem VmRgStruct.fits_iff (hordered : rg.rgStart ≤ rg.rgEnd) (hend : rg.rgEnd.toNat < 2 ^ 63)
    (hsize : size.toNat < 2 ^ 31) : rg.Fits size ↔ size.toNat ≤ rg.length := by
  unfold Fits length
  bv_omega

theorem FreeList.fits_iff (hfree : FreeList list) (hsize : size.toNat < 2 ^ 31)
    (hmem : rg ∈ list.nodes) : rg.Fits size ↔ size.toNat ≤ rg.length :=
  VmRgStruct.fits_iff (hfree.ordered rg hmem) (hfree.bounded rg hmem) hsize

/-- What is left of a region at the end of the list is a region even when it is empty. -/
def VmRgStruct.leftover (rg : VmRgStruct) (size : Addr) (after : List VmRgStruct) :
    List VmRgStruct :=
  if rg.rgStart + size < rg.rgEnd ∨ after = [] then
    [{ rgStart := rg.rgStart + size, rgEnd := rg.rgEnd }]
  else []

/-- Shrinking the node, copying its successor over it, and making it empty at the end of
the list: in each case the leftover stands before the nodes that followed. -/
theorem takeRegion_eq (hfits : fit.Fits size) :
    takeRegion size .null fit after =
      .ok { nodes := fit.leftover size after ++ after, stop := .null } := by
  unfold VmRgStruct.leftover takeRegion
  cases after with
  | cons next rest =>
      by_cases hlt : fit.rgStart + size < fit.rgEnd
      · simp only [hlt, true_or, if_true, List.cons_append, List.nil_append]
      · simp only [hlt, false_or, reduceCtorEq, if_false, List.nil_append]
  | nil =>
      by_cases hlt : fit.rgStart + size < fit.rgEnd
      · simp only [if_pos hlt, or_true, if_true, List.append_nil]
      · have hend : fit.rgEnd = fit.rgStart + size :=
          BitVec.le_antisymm (BitVec.not_lt.mp hlt) hfits
        simp only [if_neg hlt, or_true, if_true, List.append_nil, ListEnd.follow]
        rw [hend]

theorem mem_leftover {part : VmRgStruct} (hpart : part ∈ fit.leftover size after) :
    part = { rgStart := fit.rgStart + size, rgEnd := fit.rgEnd } := by
  unfold VmRgStruct.leftover at hpart
  split at hpart
  · exact List.mem_singleton.mp hpart
  · cases hpart

theorem leftover_length (fit : VmRgStruct) (size : Addr) (after : List VmRgStruct) :
    (fit.leftover size after).length ≤ 1 := by
  unfold VmRgStruct.leftover
  split <;> simp

/-- The leftover covers the region from the end of the part that was cut off. -/
theorem covered_leftover (addr : Addr) :
    (∃ part ∈ fit.leftover size after, part.Contains addr) ↔
      fit.rgStart + size ≤ addr ∧ addr < fit.rgEnd := by
  constructor
  · rintro ⟨part, hpart, hcontains⟩
    rw [mem_leftover hpart] at hcontains
    exact hcontains
  · intro hrange
    refine ⟨{ rgStart := fit.rgStart + size, rgEnd := fit.rgEnd }, ?_, hrange⟩
    have hlt : fit.rgStart + size < fit.rgEnd := by bv_omega
    unfold VmRgStruct.leftover
    rw [if_pos (Or.inl hlt)]
    exact List.mem_singleton_self _

/-! ## Cutting the first fit -/

/-- In a list with the fit in the middle, cutting its front off removes from the covered
addresses exactly those of the new region. -/
theorem covered_cut (hapart : (before ++ fit :: after).Pairwise Apart)
    (hordered : fit.rgStart ≤ fit.rgEnd) (hwrap : fit.rgStart ≤ fit.rgStart + size)
    (hfits : fit.Fits size) :
    covered (before ++ (fit.leftover size after ++ after)) =
      covered (before ++ fit :: after) \
        {addr | Contains { rgStart := fit.rgStart, rgEnd := fit.rgStart + size } addr} := by
  have hother : ∀ node ∈ before ++ after, fit.Apart node := by
    have hmiddle := (List.pairwise_middle Apart.symm).mp hapart
    exact (List.pairwise_cons.mp hmiddle).1
  ext addr
  simp only [covered, List.mem_append, List.mem_cons, Set.mem_ofPred_eq, Set.mem_sdiff]
  have hcut : Contains { rgStart := fit.rgStart, rgEnd := fit.rgStart + size } addr →
      fit.Contains addr := by
    rintro ⟨hstart, hend⟩
    refine ⟨hstart, ?_⟩
    unfold Fits at hfits
    simp only at hend
    bv_omega
  constructor
  · rintro ⟨node, hbefore | hleft | hafter, hcontains⟩
    · exact ⟨⟨node, Or.inl hbefore, hcontains⟩, fun hnew =>
        hother node (List.mem_append_left _ hbefore) addr ⟨hcut hnew, hcontains⟩⟩
    · obtain ⟨hstart, hend⟩ := (covered_leftover addr).mp ⟨node, hleft, hcontains⟩
      refine ⟨⟨fit, Or.inr (Or.inl rfl), ⟨by bv_omega, hend⟩⟩, fun hnew => ?_⟩
      exact BitVec.not_le.mpr hnew.2 hstart
    · exact ⟨⟨node, Or.inr (Or.inr hafter), hcontains⟩, fun hnew =>
        hother node (List.mem_append_right _ hafter) addr ⟨hcut hnew, hcontains⟩⟩
  · rintro ⟨⟨node, hbefore | rfl | hafter, hcontains⟩, hnew⟩
    · exact ⟨node, Or.inl hbefore, hcontains⟩
    · have hstart : node.rgStart + size ≤ addr :=
        BitVec.not_lt.mp fun hlt => hnew ⟨hcontains.1, hlt⟩
      obtain ⟨part, hpart, hinside⟩ :=
        (covered_leftover addr).mpr ⟨hstart, hcontains.2⟩
      exact ⟨part, Or.inr (Or.inl hpart), hinside⟩
    · exact ⟨node, Or.inr (Or.inr hafter), hcontains⟩

/-- The list stays one of ordered, disjoint regions below the sign bit. -/
theorem FreeList.cut (hfree : FreeList { nodes := before ++ fit :: after, stop := .null })
    (hwrap : fit.rgStart ≤ fit.rgStart + size) (hfits : fit.Fits size) :
    FreeList { nodes := before ++ (fit.leftover size after ++ after), stop := .null } := by
  have hmem : ∀ node ∈ before ++ (fit.leftover size after ++ after),
      node ∈ before ++ fit :: after ∨
        node = { rgStart := fit.rgStart + size, rgEnd := fit.rgEnd } := by
    intro node hnode
    simp only [List.mem_append, List.mem_cons] at hnode ⊢
    rcases hnode with hbefore | hleft | hafter
    · exact Or.inl (Or.inl hbefore)
    · exact Or.inr (mem_leftover hleft)
    · exact Or.inl (Or.inr (Or.inr hafter))
  have hfit : fit ∈ before ++ fit :: after := by simp
  refine { terminated := rfl, apart := ?_, ordered := ?_, bounded := ?_ }
  · obtain ⟨hfitApart, hrest⟩ :=
      List.pairwise_cons.mp ((List.pairwise_middle Apart.symm).mp hfree.apart)
    have hpart : ∀ addr, Contains { rgStart := fit.rgStart + size, rgEnd := fit.rgEnd } addr →
        fit.Contains addr := by
      rintro addr ⟨hstart, hend⟩
      simp only at hstart hend
      exact ⟨by bv_omega, hend⟩
    unfold VmRgStruct.leftover
    split
    · rw [List.singleton_append, List.pairwise_middle Apart.symm, List.pairwise_cons]
      exact ⟨fun node hnode => (hfitApart node hnode).mono hpart, hrest⟩
    · rw [List.nil_append]
      exact hrest
  · intro node hnode
    rcases hmem node hnode with hold | rfl
    · exact hfree.ordered node hold
    · exact hfits
  · intro node hnode
    rcases hmem node hnode with hold | rfl
    · exact hfree.bounded node hold
    · exact hfree.bounded fit hfit

/-- The search on a free list: without a region of the length it leaves the list as it is,
and otherwise it cuts the first such region. -/
theorem searchRegion_spec (size : Addr) (hfree : FreeList list) (hpos : 0 < size.toNat)
    (hsize : size.toNat < 2 ^ 31) :
    ∃ newrg rest, searchRegion size list.stop list.nodes = .ok (newrg, rest) ∧
      FreeList rest ∧
      (newrg = none → rest = list ∧ ∀ rg ∈ list.nodes, rg.length < size.toNat) ∧
      ∀ rg, newrg = some rg → rg.rgStart ≠ -1 ∧
        CutFirstFit size.toNat list.nodes rg rest.nodes := by
  obtain ⟨nodes, stop⟩ := list
  obtain rfl : stop = .null := hfree.terminated
  by_cases hnone : ∀ rg ∈ nodes, ¬ rg.Fits size
  · rw [searchRegion_of_no_fit hnone]
    refine ⟨none, { nodes := nodes, stop := .null }, rfl, hfree, fun _ => ⟨rfl, ?_⟩,
      fun rg hrg => by cases hrg⟩
    exact fun rg hrg => Nat.lt_of_not_le fun hle =>
      hnone rg hrg ((hfree.fits_iff hsize hrg).mpr hle)
  · obtain ⟨before, fit, after, rfl, hfits, hbefore⟩ := exists_first_fit hnone
    have hfit : fit ∈ before ++ fit :: after := by simp
    have hordered := hfree.ordered fit hfit
    have hbounded := hfree.bounded fit hfit
    have hwrap : fit.rgStart ≤ fit.rgStart + size := by bv_omega
    rw [searchRegion_of_fit hbefore hfits, takeRegion_eq hfits]
    refine ⟨_, _, rfl, hfree.cut hwrap hfits, fun hnewrg => (by cases hnewrg), ?_⟩
    intro rg hrg
    cases hrg
    refine ⟨by simp only; bv_omega, { position := ?_, covers := ?_ }⟩
    · refine ⟨before, fit, after, fit.leftover size after, rfl, fun rg hrg => ?_,
        (hfree.fits_iff hsize hfit).mp hfits, rfl, by simp only; bv_omega,
        (List.append_assoc _ _ _).symm, leftover_length _ _ _, fun part hpart => ?_⟩
      · exact Nat.lt_of_not_le fun hle => hbefore rg hrg
          ((hfree.fits_iff hsize (List.mem_append_left _ hrg)).mpr hle)
      · rw [mem_leftover hpart]
        exact ⟨rfl, rfl⟩
    · exact covered_cut hfree.apart hordered hwrap hfits

/-! ## The call -/

/-- A positive `int` is the same number as an address. -/
theorem ofCInt_toNat {size : Int} (hpos : 0 < size) (hsize : size < 2 ^ 31) :
    (ofCInt size).toNat = size.toNat := by
  unfold ofCInt
  rw [BitVec.toNat_ofInt]
  omega

/-- `get_free_vmrg_area` finds a region exactly when some free region has room for the
size. It then cuts the front off the first such region, and otherwise changes nothing. -/
theorem getFreeVmrgArea_first_fit (mm : MmStruct) (vmaid size : Int) (position : Nat)
    (vma : VmAreaStruct) (hposition : mm.getVmaByNum vmaid = .ok (some position))
    (hvma : mm.vmaAt (some position) = .ok vma) (hfree : FreeList vma.vmFreergList)
    (hpos : 0 < size) (hsize : size < 2 ^ 31) :
    ∃ newrg rest, mm.getFreeVmrgArea vmaid size =
        .ok (newrg, mm.setVmaAt (some position) { vma with vmFreergList := rest }) ∧
      (newrg.isSome ↔ ∃ rg ∈ vma.vmFreergList.nodes, size ≤ rg.length) ∧
      (∀ rg, newrg = some rg →
        CutFirstFit size.toNat vma.vmFreergList.nodes rg rest.nodes) ∧
      FreeList rest ∧
      (newrg = none → mm.getFreeVmrgArea vmaid size = .ok (none, mm)) := by
  have hnat := ofCInt_toNat hpos hsize
  obtain ⟨newrg, rest, hsearch, hrest, hnone, hsome⟩ :=
    searchRegion_spec (ofCInt size) hfree (by omega) (by omega)
  rw [hnat] at hnone hsome
  have hfilter : newrg.filter (fun rg => rg.rgStart != -1) = newrg := by
    cases newrg with
    | none => rfl
    | some rg => rw [Option.filter_some, if_pos (bne_iff_ne.mpr (hsome rg rfl).1)]
  have hcall : mm.getFreeVmrgArea vmaid size =
      .ok (newrg, mm.setVmaAt (some position) { vma with vmFreergList := rest }) := by
    unfold MmStruct.getFreeVmrgArea
    simp only [hposition, hvma, hsearch, ok_bind, hfilter, pure_eq_ok]
  refine ⟨newrg, rest, hcall, ?_, fun rg hrg => (hsome rg hrg).2, hrest, fun hnewrg => ?_⟩
  · constructor
    · intro hfound
      obtain ⟨rg, rfl⟩ := Option.isSome_iff_exists.mp hfound
      obtain ⟨before, fit, after, left, hnodes, -, hfit, -⟩ := (hsome rg rfl).2.position
      exact ⟨fit, by rw [hnodes]; simp, by omega⟩
    · rintro ⟨rg, hrg, hlength⟩
      by_contra hnewrg
      have hshort := (hnone (Option.not_isSome_iff_eq_none.mp hnewrg)).2 rg hrg
      omega
  · rw [hcall, hnewrg, (hnone hnewrg).1, MmStruct.setVmaAt_vmaAt hvma]

/-- An area with two free regions, the second of which has room for 20 bytes. -/
def twoFreeRegions : VmAreaStruct where
  vmId := 0
  vmStart := 0
  vmEnd := 300
  sbrk := 0
  vmFreergList :=
    { nodes := [{ rgStart := 16, rgEnd := 32 }, { rgStart := 100, rgEnd := 200 }], stop := .null }

theorem twoFreeRegions_freeList : FreeList twoFreeRegions.vmFreergList where
  terminated := rfl
  apart := by
    refine List.pairwise_pair.mpr fun addr hboth => ?_
    obtain ⟨⟨-, hend⟩, ⟨hstart, -⟩⟩ := hboth
    simp only at hend hstart
    bv_omega
  ordered := by decide
  bounded := by decide

theorem getFreeVmrgArea_first_fit_twenty :
    ∃ newrg rest, { initMm .null with mmap := [twoFreeRegions] }.getFreeVmrgArea 0 20 =
        .ok (newrg, { initMm .null with mmap := [twoFreeRegions] }.setVmaAt (some 0)
          { twoFreeRegions with vmFreergList := rest }) ∧
      (newrg.isSome ↔ ∃ rg ∈ twoFreeRegions.vmFreergList.nodes, (20 : Int) ≤ rg.length) ∧
      (∀ rg, newrg = some rg →
        CutFirstFit (20 : Int).toNat twoFreeRegions.vmFreergList.nodes rg rest.nodes) ∧
      FreeList rest ∧
      (newrg = none → { initMm .null with mmap := [twoFreeRegions] }.getFreeVmrgArea 0 20 =
        .ok (none, { initMm .null with mmap := [twoFreeRegions] })) :=
  getFreeVmrgArea_first_fit { initMm .null with mmap := [twoFreeRegions] } 0 20 0 twoFreeRegions
    rfl rfl twoFreeRegions_freeList (by decide) (by decide)

end SimpleOs
