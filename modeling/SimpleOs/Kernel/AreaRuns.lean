import SimpleOs.Kernel.AllocFailure
import SimpleOs.Kernel.RegionRuns

/-! # The end of the area

Growing the area sets its end to the requested size, since the break never moves. The
end therefore goes down when a later request is smaller. The system call passes on 32 bits of
the size, so a request of `2 ^ 32` bytes or more is registered past the end.
-/

namespace SimpleOs

open MmStruct Regions

variable {Proc : Type} {pidOf : Proc → Except Fault Word32} {junk : Byte} {pid : Word32}

namespace Regions

/-- No region of the table or of the free list ends after the bound. -/
structure EndsBy (bound : Addr) (regions : Regions) : Prop where
  live : ∀ rgid, (regions.table rgid).rgEnd ≤ bound
  free : ∀ rg ∈ regions.free.nodes, rg.rgEnd ≤ bound

variable {regions next : Regions} {rgid : Fin pagingMaxSymtblSz} {size bound other : Addr}

theorem EndsBy.mono (hends : regions.EndsBy bound) (hle : bound ≤ other) :
    regions.EndsBy other where
  live rgid := BitVec.le_trans (hends.live rgid) hle
  free rg hrg := BitVec.le_trans (hends.free rg hrg) hle

/-- Only the end of the overwritten region is new. -/
theorem EndsBy.update_iff (hends : regions.EndsBy bound) (rgid : Fin pagingMaxSymtblSz)
    (rg : VmRgStruct) :
    EndsBy bound { regions with table := Function.update regions.table rgid rg } ↔
      rg.rgEnd ≤ bound := by
  constructor
  · intro hnext
    have hself := hnext.live rgid
    simpa only [Function.update_self] using hself
  · intro hle
    refine { live := fun index => ?_, free := hends.free }
    by_cases hindex : index = rgid
    · subst hindex
      simpa only [Function.update_self] using hle
    · simpa only [Function.update_of_ne hindex] using hends.live index

theorem EndsBy.release (hends : regions.EndsBy bound) (rgid : Fin pagingMaxSymtblSz) :
    (regions.release rgid).EndsBy bound := by
  have hcleared := (hends.update_iff rgid { rgStart := 0, rgEnd := 0 }).mpr (by bv_omega)
  refine { live := hcleared.live, free := fun rg hrg => ?_ }
  unfold Regions.release at hrg
  simp only at hrg
  split at hrg
  next => exact hends.free rg hrg
  next =>
    rcases List.mem_cons.mp hrg with rfl | hrg
    · exact hends.live rgid
    · exact hends.free rg hrg

/-- Without a free region that fits, the new region ends at the size. A region cut from a
free one, and what is left of that, end no later than it did. -/
theorem AllocCase.endsBy_iff (hcase : AllocCase regions rgid size next)
    (hends : regions.EndsBy bound) :
    next.EndsBy bound ↔ (regions.firstFit size = none → size ≤ bound) := by
  have hcut : ∀ {before after : List VmRgStruct} {fit : VmRgStruct} {nodes : List VmRgStruct}
      {stop : ListEnd} (taken : Addr),
      regions.free.nodes = before ++ fit :: after → fit.Fits (ofCInt (toCInt size)) →
      (∀ rg ∈ before, ¬ rg.Fits (ofCInt (toCInt size))) → taken ≤ fit.rgEnd →
      (∀ rg ∈ nodes, rg ∈ regions.free.nodes ∨ rg.rgEnd = fit.rgEnd) →
      (EndsBy bound
        { table := Function.update regions.table rgid { rgStart := fit.rgStart, rgEnd := taken }
          free := { nodes := nodes, stop := stop } } ↔
        (regions.firstFit size = none → size ≤ bound)) := by
    intro before after fit nodes stop taken hnodes hfits hbefore htaken hkept
    have hfit : fit.rgEnd ≤ bound := hends.free fit (by rw [hnodes]; simp)
    refine iff_of_true ?_ fun hnone => ?_
    · have htable := (hends.update_iff rgid { rgStart := fit.rgStart, rgEnd := taken }).mpr
        (BitVec.le_trans htaken hfit)
      refine { live := htable.live, free := fun rg hrg => ?_ }
      rcases hkept rg hrg with hold | hend
      · exact hends.free rg hold
      · exact hend ▸ hfit
    · rw [firstFit_eq_some hnodes hfits hbefore] at hnone
      cases hnone
  cases hcase with
  | growth hnone =>
      have hfit : regions.firstFit size = none := by
        unfold firstFit
        simpa using hnone
      rw [hends.update_iff, hfit]
      exact ⟨fun hle _ => hle, fun hle => hle rfl⟩
  | remainder before after fit hnodes hbefore hfits stop =>
      refine hcut _ hnodes (BitVec.le_of_lt hfits) hbefore (BitVec.le_of_lt hfits) fun rg hrg => ?_
      rw [hnodes]
      simp only [List.mem_append, List.mem_cons] at hrg ⊢
      rcases hrg with hrg | rfl | hrg
      · exact Or.inl (Or.inl hrg)
      · exact Or.inr rfl
      · exact Or.inl (Or.inr (Or.inr hrg))
  | whole before after fit hnodes hbefore hafter hfits stop =>
      refine hcut _ hnodes (BitVec.le_of_eq hfits) hbefore (BitVec.le_of_eq hfits) fun rg hrg => ?_
      rw [hnodes]
      simp only [List.mem_append, List.mem_cons] at hrg ⊢
      exact Or.inl (hrg.imp id Or.inr)
  | nothing before hnodes hbefore hsize stop =>
      refine hcut 0 hnodes ?_ hbefore (BitVec.le_refl _) fun rg hrg => Or.inl hrg
      rw [hsize]
      decide

end Regions

/-! ## The end of the area under one call -/

/-- From the break at 0, an area of some size overlaps no other. -/
theorem MmStruct.validateOverlapVmArea_of_break {mm : MmStruct} {vma : VmAreaStruct}
    (hmmap : mm.mmap = [vma]) (hid : vma.vmId = 0) (hsbrk : vma.sbrk = 0) {incSz : Addr}
    (hsize : incSz ≠ 0) :
    mm.validateOverlapVmArea 0 vma.sbrk (vma.sbrk + incSz) = .ok 0 := by
  have hordered : ¬ vma.sbrk ≥ vma.sbrk + incSz := by
    rw [hsbrk]
    bv_omega
  unfold validateOverlapVmArea
  rw [if_neg hordered, if_neg (by rw [hmmap]; exact List.cons_ne_nil _ _)]
  simp only [getVmaByNum_of_single hmmap hid, ok_bind, vmaAt_of_single hmmap]
  rw [hmmap]
  rfl

/-- From the break at 0, growing the area by a size sets its end to the size. -/
theorem MmStruct.incVmaLimit_of_break {mm : MmStruct} {vma : VmAreaStruct}
    (hmmap : mm.mmap = [vma]) (hid : vma.vmId = 0) (hsbrk : vma.sbrk = 0) {incSz : Addr}
    (hsize : incSz ≠ 0) :
    mm.incVmaLimit 0 incSz = .ok (0, { mm with mmap := [{ vma with vmEnd := incSz }] }) := by
  have hend : vma.sbrk + incSz = incSz := by
    rw [hsbrk]
    bv_omega
  have hvalid := validateOverlapVmArea_of_break hmmap hid hsbrk hsize
  rw [hend] at hvalid
  unfold incVmaLimit getVmAreaNodeAtBrk
  simp only [getVmaByNum_of_single hmmap hid, ok_bind, vmaAt_of_single hmmap,
    setVmaAt_of_single hmmap, pure_eq_ok, hvalid, hend]
  rfl

variable {krnl next : Krnl Proc} {rgid : Fin pagingMaxSymtblSz} {size : Addr} {vma : VmAreaStruct}

/-- The size that does not fit anywhere is not 0 in its low bits, which the empty region would
serve. -/
theorem Regions.toAddr32_ne_zero_of_no_fit {regions : Regions}
    (hshaped : Shaped regions.free.nodes) (hnone : regions.firstFit size = none) :
    toAddr32 size ≠ 0 := by
  intro hlow
  have hzero : ofCInt (toCInt size) = 0 := by
    have hword : size.setWidth 32 = 0 := by
      apply BitVec.eq_of_toNat_eq
      rw [BitVec.toNat_setWidth, ← toAddr32_toNat, hlow]
      rfl
    unfold toCInt
    rw [hword]
    rfl
  obtain ⟨front, hnodes, -⟩ := hshaped
  unfold firstFit at hnone
  rw [List.find?_eq_none] at hnone
  refine hnone { rgStart := 0, rgEnd := 0 } (by rw [hnodes]; simp) ?_
  rw [hzero]
  decide

/-- An allocation from the free list leaves the end of the area alone. -/
theorem alloc_vmEnd_of_fit (hmm : krnl.mm.Unmapped)
    (hshaped : Shaped krnl.mm.regions.free.nodes) (hmmap : krnl.mm.mmap = [vma])
    {fit : VmRgStruct} (hfit : krnl.mm.regions.firstFit size = some fit) {status : Int}
    {addr : Option Addr}
    (halloc : alloc pidOf junk krnl pid 0 rgid.val size = .ok (status, addr, next)) :
    ∃ list, next.mm.mmap = [{ vma with vmFreergList := list }] := by
  obtain ⟨other, hother, hid, -⟩ := hmm.area
  obtain rfl : vma = other := List.head_eq_of_cons_eq (hmmap.symm.trans hother)
  rw [regions_eq_of_single hmmap] at hshaped
  unfold firstFit at hfit
  simp only [regions_eq_of_single hmmap, List.find?_eq_some_iff_append, decide_eq_true_eq,
    Bool.not_eq_true', decide_eq_false_iff_not] at hfit
  obtain ⟨hfits, before, after, hnodes, hbefore⟩ := hfit
  have hstart : fit.rgStart ≠ -1 := by
    simp only [hnodes] at hshaped
    rcases hshaped.split with ⟨-, rfl⟩ | ⟨-, hnonempty, -, -⟩
    · decide
    · bv_omega
  unfold alloc at halloc
  rw [MmStruct.getFreeVmrgArea_of_single hmmap hid, hnodes,
    searchRegion_of_fit hbefore hfits] at halloc
  obtain ⟨⟨rgnode, mm⟩, hsearch, halloc⟩ := bind_eq_ok.mp halloc
  obtain ⟨⟨found, list⟩, hfound, hpair⟩ := map_eq_ok.mp hsearch
  obtain ⟨taken, -, htaken⟩ := map_eq_ok.mp hfound
  cases htaken
  simp only [Option.filter_some, if_pos (bne_iff_ne.mpr hstart)] at hpair
  cases hpair
  simp only [setSymrg_of_fin, ok_bind] at halloc
  cases halloc
  exact ⟨_, rfl⟩

/-- Without a fit the end of the area becomes the size, narrowed to 32 bits, when the caller
is found in the running list, and otherwise stays. -/
theorem alloc_vmEnd_of_no_fit (hmm : krnl.mm.Unmapped)
    (hshaped : Shaped krnl.mm.regions.free.nodes) (hmmap : krnl.mm.mmap = [vma])
    (hfit : krnl.mm.regions.firstFit size = none) {status : Int} {addr : Option Addr}
    (halloc : alloc pidOf junk krnl pid 0 rgid.val size = .ok (status, addr, next)) :
    ∃ caller after, findCaller pidOf krnl pid = .ok (caller, after) ∧ next.mm.mmap =
      [{ vma with vmEnd := if caller.isSome then toAddr32 size else vma.vmEnd }] := by
  have hsize := toAddr32_ne_zero_of_no_fit hshaped hfit
  obtain ⟨other, hother, hid, hsbrk⟩ := hmm.area
  obtain rfl : vma = other := List.head_eq_of_cons_eq (hmmap.symm.trans hother)
  have harea : krnl.mm.getVmaByNum 0 >>= krnl.mm.vmaAt = .ok vma := by
    rw [getVmaByNum_of_single hmmap hid, ok_bind, vmaAt_of_single hmmap]
  have hnone : ∀ rg ∈ vma.vmFreergList.nodes, ¬ rg.Fits (ofCInt (toCInt size)) := by
    unfold firstFit at hfit
    simpa [regions_eq_of_single hmmap] using hfit
  obtain ⟨rgnode, mm, hsearch, hends⟩ := alloc_ends halloc
  obtain ⟨rfl, rfl⟩ := getFreeVmrgArea_of_no_fit harea hnone hsearch
  cases hends with
  | noArea hlookup =>
      rw [getVmaByNum_of_single hmmap hid] at hlookup
      cases hlookup
  | grown hlookup hvma hregs hcall hset =>
      subst hregs
      change syscall pidOf junk krnl pid 17 (incRegs (ofCInt (toCInt size))) = _ at hcall
      rw [syscall_inc] at hcall
      obtain ⟨⟨caller, found⟩, hfind, hcall⟩ := bind_eq_ok.mp hcall
      have hsame : found.mm = krnl.mm := by rw [findCaller_eq_ok hfind]
      refine ⟨caller, found, hfind, ?_⟩
      rw [setSymrg_of_fin] at hset
      cases hset
      cases caller with
      | none =>
          cases hcall
          exact hsame.symm ▸ hmmap
      | some proc =>
          simp only [hsame, toAddr32_ofCInt, incVmaLimit_of_break hmmap hid hsbrk hsize,
            ok_bind] at hcall
          cases hcall
          rfl

/-! ## Runs -/

/-- A kernel, with the end that the area had before the last call. -/
structure Growth (Proc : Type) where
  krnl : Krnl Proc
  formerEnd : Addr

/-- The region lies between the bounds of the area. -/
def VmAreaStruct.Encloses (vma : VmAreaStruct) (rg : VmRgStruct) : Prop :=
  vma.vmStart ≤ rg.rgStart ∧ rg.rgEnd ≤ vma.vmEnd

/-- The bounds of an area in order, with its break and all regions between them, and its
end not below the former one. -/
structure Growth.Contained (growth : Growth Proc) : Prop where
  area : ∃ vma rest, growth.krnl.mm.mmap = vma :: rest ∧
    vma.vmStart ≤ vma.sbrk ∧ vma.sbrk ≤ vma.vmEnd ∧
    (∀ rgid, vma.Encloses (growth.krnl.mm.symrgtbl rgid)) ∧
    (∀ rg ∈ vma.vmFreergList.nodes, vma.Encloses rg) ∧ growth.formerEnd ≤ vma.vmEnd

/-- The end of the first area. -/
def MmStruct.areaEnd (mm : MmStruct) : Addr :=
  match mm.mmap with
  | [] => 0
  | vma :: _ => vma.vmEnd

theorem MmStruct.areaEnd_of_single {mm : MmStruct} {vma : VmAreaStruct}
    (hmmap : mm.mmap = [vma]) : mm.areaEnd = vma.vmEnd := by
  unfold MmStruct.areaEnd
  rw [hmmap]

namespace RegionCall

/-- One call, which makes the present end the former one. -/
def grow (pidOf : Proc → Except Fault Word32) (junk : Byte) (pid : Word32)
    (growth : Growth Proc) (call : RegionCall) : Option (Growth Proc) :=
  (call.step pidOf junk pid growth.krnl).map fun next =>
    { krnl := next, formerEnd := growth.krnl.mm.areaEnd }

/-- The condition on one call, in the state before it. An allocation without a fit needs
that the size fits 32 bits and reaches the end of the area. When the process is not in the
running list, the size must not reach past the end. -/
def Extends (pidOf : Proc → Except Fault Word32) (pid : Word32) (krnl : Krnl Proc) :
    RegionCall → Prop
  | alloc _ size => krnl.mm.regions.firstFit size = none →
      ∀ caller after, findCaller pidOf krnl pid = .ok (caller, after) →
        if caller.isSome then size.toNat < 2 ^ 32 ∧ krnl.mm.areaEnd ≤ size
        else size ≤ krnl.mm.areaEnd
  | free _ => True

/-- The new end reaches the old one and the size exactly when nothing is cut off the size. -/
theorem reaches_toAddr32_iff (formerEnd size : Addr) :
    formerEnd ≤ toAddr32 size ∧ size ≤ toAddr32 size ↔
      size.toNat < 2 ^ 32 ∧ formerEnd ≤ size := by
  simp only [BitVec.le_def, toAddr32_toNat]
  constructor
  · rintro ⟨hformer, hle⟩
    have hlt := Nat.mod_lt size.toNat (show 0 < 2 ^ 32 by decide)
    omega
  · rintro ⟨hlt, hformer⟩
    rw [Nat.mod_eq_of_lt hlt]
    exact ⟨hformer, Nat.le_refl _⟩

/-- What the calls keep, contained or not. -/
structure Anchored (growth : Growth Proc) : Prop where
  ready : Ready growth.krnl
  start : ∃ vma, growth.krnl.mm.mmap = [vma] ∧ vma.vmStart = 0 ∧ vma.sbrk = 0

variable {growth after : Growth Proc} {call : RegionCall}

/-- In an area that starts at 0, being contained is a matter of ends. -/
theorem Anchored.contained_iff (hanchored : Anchored growth) :
    growth.Contained ↔ growth.krnl.mm.regions.EndsBy growth.krnl.mm.areaEnd ∧
      growth.formerEnd ≤ growth.krnl.mm.areaEnd := by
  obtain ⟨vma, hmmap, hstart, hsbrk⟩ := hanchored.start
  have hlow : ∀ addr : Addr, vma.vmStart ≤ addr := by
    intro addr
    rw [hstart]
    bv_omega
  rw [regions_eq_of_single hmmap, areaEnd_of_single hmmap]
  constructor
  · rintro ⟨other, rest, hother, -, -, hlive, hfree, hformer⟩
    obtain ⟨rfl, -⟩ := List.cons.inj (hmmap.symm.trans hother)
    exact ⟨⟨fun rgid => (hlive rgid).2, fun rg hrg => (hfree rg hrg).2⟩, hformer⟩
  · rintro ⟨hends, hformer⟩
    refine ⟨vma, [], hmmap, hlow _, ?_, fun rgid => ⟨hlow _, hends.live rgid⟩,
      fun rg hrg => ⟨hlow _, hends.free rg hrg⟩, hformer⟩
    rw [hsbrk]
    bv_omega

theorem free_mmap {mm after : MmStruct} {status rgid : Int} {vma : VmAreaStruct}
    (hmmap : mm.mmap = [vma]) (hfree : SimpleOs.free mm rgid = .ok (status, after)) :
    ∃ list, after.mmap = [{ vma with vmFreergList := list }] := by
  cases free_ends hfree with
  | refused => exact ⟨vma.vmFreergList, hmmap⟩
  | freed hread hclear hlist =>
      obtain ⟨index, rfl⟩ := exists_fin_of_setSymrg hclear
      rw [setSymrg_of_fin] at hclear
      cases hclear
      unfold enlistVmFreergList at hlist
      simp only [hmmap] at hlist
      split at hlist
      next =>
        cases hlist
        exact ⟨vma.vmFreergList, rfl⟩
      next =>
        cases hlist
        exact ⟨_, rfl⟩

/-- What a call does to the area: the free list changes, and the end only when an
allocation finds no fit. -/
theorem Ready.area_step {next : Krnl Proc} {vma : VmAreaStruct} (hready : Ready krnl)
    (hmmap : krnl.mm.mmap = [vma]) (hstep : call.step pidOf junk pid krnl = some next) :
    ∃ list vmEnd, next.mm.mmap = [{ vma with vmEnd := vmEnd, vmFreergList := list }] ∧
      ((vmEnd = vma.vmEnd ∧ ∀ rgid size, call = alloc rgid size →
          krnl.mm.regions.firstFit size ≠ none) ∨
        ∃ rgid size, call = alloc rgid size ∧ krnl.mm.regions.firstFit size = none ∧
          ∃ caller after, findCaller pidOf krnl pid = .ok (caller, after) ∧
            vmEnd = if caller.isSome then toAddr32 size else vma.vmEnd) := by
  cases call with
  | alloc rgid size =>
      obtain ⟨⟨status, addr, after⟩, halloc, rfl⟩ := Option.map_eq_some_iff.mp hstep
      rw [Runs.toOption_eq_some_iff] at halloc
      cases hfit : krnl.mm.regions.firstFit size with
      | some fit =>
          obtain ⟨list, hlist⟩ :=
            alloc_vmEnd_of_fit hready.unmapped hready.shaped hmmap hfit halloc
          refine ⟨list, vma.vmEnd, hlist, Or.inl ⟨rfl, ?_⟩⟩
          rintro _ _ ⟨⟩
          rw [hfit]
          exact Option.some_ne_none fit
      | none =>
          obtain ⟨caller, found, hfind, hlist⟩ :=
            alloc_vmEnd_of_no_fit hready.unmapped hready.shaped hmmap hfit halloc
          exact ⟨vma.vmFreergList, _, hlist,
            Or.inr ⟨rgid, size, rfl, hfit, caller, found, hfind, rfl⟩⟩
  | free rgid =>
      obtain ⟨⟨status, after⟩, hfree, rfl⟩ := Option.map_eq_some_iff.mp hstep
      obtain ⟨list, hlist⟩ := free_mmap hmmap (Runs.toOption_eq_some_iff.mp hfree)
      exact ⟨list, vma.vmEnd, hlist, Or.inl ⟨rfl, fun _ _ hcall => by cases hcall⟩⟩

/-- The regions stay below a bound that covers the new end, or fail to, as the size says. -/
theorem Ready.endsBy_step_iff {next : Krnl Proc} {bound : Addr} (hready : Ready krnl)
    (hends : krnl.mm.regions.EndsBy bound) (hstep : call.step pidOf junk pid krnl = some next) :
    next.mm.regions.EndsBy bound ↔
      ∀ rgid size, call = alloc rgid size → krnl.mm.regions.firstFit size = none →
        size ≤ bound := by
  cases call with
  | alloc rgid size =>
      rw [(hready.alloc_step hstep).2.endsBy_iff hends]
      constructor
      · rintro hsize _ _ ⟨⟩
        exact hsize
      · exact fun hall => hall rgid size rfl
  | free rgid =>
      rw [(hready.free_step hstep).2]
      exact iff_of_true (hends.release rgid) (fun _ _ hcall => by cases hcall)

theorem Anchored.step (hanchored : Anchored growth)
    (hstep : grow pidOf junk pid growth call = some after) : Anchored after := by
  obtain ⟨next, hnext, rfl⟩ := Option.map_eq_some_iff.mp hstep
  obtain ⟨vma, hmmap, hstart, hsbrk⟩ := hanchored.start
  obtain ⟨list, vmEnd, hlist, -⟩ := hanchored.ready.area_step hmmap hnext
  exact { ready := hanchored.ready.step hnext, start := ⟨_, hlist, hstart, hsbrk⟩ }

/-- From a contained state, a call leads to a contained state exactly under the condition. -/
theorem Anchored.contained_step_iff (hanchored : Anchored growth) (hcontained : growth.Contained)
    (hstep : grow pidOf junk pid growth call = some after) :
    after.Contained ↔ call.Extends pidOf pid growth.krnl := by
  rw [(hanchored.step hstep).contained_iff]
  obtain ⟨hends, -⟩ := hanchored.contained_iff.mp hcontained
  obtain ⟨next, hnext, rfl⟩ := Option.map_eq_some_iff.mp hstep
  obtain ⟨vma, hmmap, -, -⟩ := hanchored.start
  obtain ⟨list, vmEnd, hlist, hend⟩ := hanchored.ready.area_step hmmap hnext
  have hkeeps {bound : Addr} (hle : growth.krnl.mm.areaEnd ≤ bound) :=
    hanchored.ready.endsBy_step_iff (hends.mono hle) hnext
  rw [areaEnd_of_single hmmap] at hends hkeeps
  simp only [areaEnd_of_single hlist, areaEnd_of_single hmmap]
  cases call with
  | free rgid =>
      rcases hend with ⟨rfl, -⟩ | ⟨_, _, hcall, -⟩
      · refine iff_of_true ⟨(hkeeps (BitVec.le_refl _)).mpr ?_, BitVec.le_refl _⟩ trivial
        exact fun _ _ hcall => by cases hcall
      · cases hcall
  | alloc rgid size =>
      have hsize {bound : Addr} (hle : vma.vmEnd ≤ bound) : next.mm.regions.EndsBy bound ↔
          (growth.krnl.mm.regions.firstFit size = none → size ≤ bound) := by
        rw [hkeeps hle]
        constructor
        · exact fun hall => hall rgid size rfl
        · rintro hfits _ _ ⟨⟩
          exact hfits
      unfold Extends
      rw [areaEnd_of_single hmmap]
      rcases hend with ⟨rfl, hfits⟩ | ⟨_, _, ⟨⟩, hfit, caller, found, hfind, rfl⟩
      · have hfit := hfits rgid size rfl
        exact iff_of_true
          ⟨(hsize (BitVec.le_refl _)).mpr fun hnone => absurd hnone hfit, BitVec.le_refl _⟩
          fun hnone => absurd hnone hfit
      · constructor
        · rintro ⟨hnextEnds, hformer⟩ - other last hother
          cases hfind.symm.trans hother
          have hle := (hsize hformer).mp hnextEnds hfit
          cases caller with
          | none => exact hle
          | some proc => exact (reaches_toAddr32_iff _ size).mp ⟨hformer, hle⟩
        · intro hall
          have hone := hall hfit caller found hfind
          cases caller with
          | none => exact ⟨(hsize (BitVec.le_refl _)).mpr fun _ => hone, BitVec.le_refl _⟩
          | some proc =>
              obtain ⟨hformer, hle⟩ := (reaches_toAddr32_iff _ size).mpr hone
              exact ⟨(hsize hformer).mpr fun _ => hle, hformer⟩

/-- The area contains all regions and never shrinks, in every state of a run, exactly when
every call of the run meets the condition. -/
theorem contained_iff_extends (pidOf : Proc → Except Fault Word32) (junk : Byte)
    (pid : Word32) (boot : Krnl Proc) (garbage : ListEnd) (calls : List RegionCall) :
    (∀ growth ∈ Runs.visited (grow pidOf junk pid)
        { krnl := boot.initMm garbage, formerEnd := 0 } calls, growth.Contained) ↔
      ∀ move ∈ Runs.taken (grow pidOf junk pid)
        { krnl := boot.initMm garbage, formerEnd := 0 } calls,
        move.2.Extends pidOf pid move.1.krnl := by
  have hstart : Anchored { krnl := boot.initMm garbage, formerEnd := 0 } :=
    { ready := ready_initMm boot garbage, start := ⟨_, rfl, rfl, rfl⟩ }
  have hcontained : Growth.Contained { krnl := boot.initMm garbage, formerEnd := 0 } := by
    refine hstart.contained_iff.mpr
      ⟨{ live := fun _ => BitVec.le_refl _, free := fun rg hrg => ?_ }, BitVec.le_refl _⟩
    rw [List.mem_singleton.mp hrg]
    exact BitVec.le_refl _
  exact Runs.visited_iff_taken Anchored Growth.Contained (fun _ => True)
    (fun growth call => Extends pidOf pid growth.krnl call)
    (fun _ _ _ _ hanchored hstep => hanchored.step hstep)
    (fun _ _ _ _ hanchored hcontained hstep => hanchored.contained_step_iff hcontained hstep)
    (fun _ _ => trivial) hstart hcontained

/-- A second, smaller allocation lowers the end of the area below the first region. -/
theorem not_contained_second_smaller :
    ∃ growth, Runs.run (grow (fun _ => .ok 1) 0 1)
        { krnl := singleProcess.initMm .null, formerEnd := 0 } [alloc 0 100, alloc 1 50] =
          some growth ∧ ¬ growth.Contained := by
  have hends : (Runs.run (grow (fun _ => .ok 1) 0 1)
      { krnl := singleProcess.initMm .null, formerEnd := 0 } [alloc 0 100, alloc 1 50]).map
        (fun growth => (growth.krnl.mm.mmap.map fun vma => vma.vmEnd, growth.formerEnd)) =
          some ([50], 100) := by
    decide +kernel
  obtain ⟨growth, hrun, hpair⟩ := Option.map_eq_some_iff.mp hends
  refine ⟨growth, hrun, ?_⟩
  rintro ⟨vma, rest, hmmap, -, -, -, -, hformer⟩
  obtain ⟨hend, hold⟩ := Prod.mk.inj hpair
  rw [hmmap, List.map_cons] at hend
  rw [(List.cons.inj hend).1, hold] at hformer
  exact absurd hformer (by decide)

end RegionCall

end SimpleOs
