import SimpleOs.Memory.AreaLookup
import SimpleOs.Memory.Disjoint

/-! # The check for overlapping areas

`validate_overlap_vm_area` is to refuse a planned range that meets another area before
`inc_vma_limit` moves the end of one. The loop compares each area with the old range of the
growing one, and the macro that compares two ranges is the constant 0. So the check accepts
every range, and its answer is right exactly where there is nothing to refuse.
-/

namespace SimpleOs

open VmRgStruct

/-- The addresses of an area. -/
def VmAreaStruct.range (vma : VmAreaStruct) : VmRgStruct where
  rgStart := vma.vmStart
  rgEnd := vma.vmEnd

/-- The addresses of an area after `inc_vma_limit` has moved its end. -/
def VmAreaStruct.grown (vma : VmAreaStruct) (incSz : Addr) : VmRgStruct where
  rgStart := vma.vmStart
  rgEnd := vma.sbrk + incSz

namespace MmStruct

/-- The planned range meets an area with another number. -/
def MeetsOther (mm : MmStruct) (vmaid : Int) (vmastart vmaend : Addr) : Prop :=
  ∃ vma ∈ mm.mmap, (vma.vmId.toNat : Int) ≠ vmaid ∧
    ¬ Apart { rgStart := vmastart, rgEnd := vmaend } vma.range

/-- The check refuses the planned range exactly if it meets an area with another number. -/
def ChecksOverlap (mm : MmStruct) (vmaid : Int) (vmastart vmaend : Addr) : Prop :=
  (mm.MeetsOther vmaid vmastart vmaend →
      mm.validateOverlapVmArea vmaid vmastart vmaend = .ok (-1)) ∧
    (¬ mm.MeetsOther vmaid vmastart vmaend →
      mm.validateOverlapVmArea vmaid vmastart vmaend = .ok 0)

/-- No two areas share an address. -/
def AreasApart (mm : MmStruct) : Prop :=
  mm.mmap.Pairwise fun former latter => former.range.Apart latter.range

/-- The area that `get_vma_by_num` finds, once grown, meets no other. -/
def GrowsApart (mm : MmStruct) (vmaid : Int) (incSz : Addr) : Prop :=
  ∀ before vma after, mm.mmap = before ++ vma :: after →
    mm.getVmaByNum vmaid = .ok (some before.length) → vma.sbrk < vma.sbrk + incSz →
    ∀ other ∈ before ++ after, (vma.grown incSz).Apart other.range

/-- The number is the one of an area. -/
def HasNumber (mm : MmStruct) (vmaid : Int) : Prop :=
  ∃ vma ∈ mm.mmap, (vma.vmId.toNat : Int) = vmaid

variable {mm : MmStruct}

/-! ## The area that is found -/

theorem vmaAt_of_split {before after : List VmAreaStruct} {vma : VmAreaStruct}
    (hmmap : mm.mmap = before ++ vma :: after) : mm.vmaAt (some before.length) = .ok vma := by
  unfold vmaAt
  rw [Option.bind_some, hmmap, List.getElem?_append_right (Nat.le_refl _), Nat.sub_self]
  rfl

theorem exists_split {index : Nat} (hindex : index < mm.mmap.length) :
    ∃ before vma after, mm.mmap = before ++ vma :: after ∧ index = before.length := by
  refine ⟨mm.mmap.take index, mm.mmap[index], mm.mmap.drop (index + 1), ?_, ?_⟩
  · rw [← List.drop_eq_getElem_cons hindex, List.take_append_drop]
  · rw [List.length_take, Nat.min_eq_left (Nat.le_of_lt hindex)]

/-- A number that is in the list brings the lookup to stop at an area. -/
theorem HasNumber.exists_getVmaByNum {vmaid : Word32} (hnumber : mm.HasNumber vmaid.toInt) :
    ∃ before vma after, mm.mmap = before ++ vma :: after ∧
      mm.getVmaByNum vmaid.toInt = .ok (some before.length) := by
  obtain ⟨present, hmem, hid⟩ := hnumber
  have hbound := BitVec.toInt_lt (x := vmaid)
  have hnarrow := (toCInt_toNat present.vmId).1 (by omega)
  have hnonempty : mm.mmap ≠ [] := List.ne_nil_of_mem hmem
  have hlookup := getVmaByNum_eq hnonempty vmaid.toInt
  cases hfind : mm.mmap.findIdx? (stopsAt vmaid.toInt) with
  | none =>
      have hnot := List.findIdx?_eq_none_iff.mp hfind present hmem
      unfold stopsAt at hnot
      rw [decide_eq_false_iff_not] at hnot
      omega
  | some index =>
      rw [hfind] at hlookup
      obtain ⟨hindex, -, -⟩ := List.findIdx?_eq_some_iff_getElem.mp hfind
      obtain ⟨before, vma, after, hmmap, rfl⟩ := exists_split hindex
      exact ⟨before, vma, after, hmmap, hlookup⟩

/-- A growth that completes has found an area. -/
theorem exists_getVmaByNum_of_incVmaLimit {vmaid status : Int} {incSz : Addr} {next : MmStruct}
    (hgrow : mm.incVmaLimit vmaid incSz = .ok (status, next)) :
    ∃ before vma after, mm.mmap = before ++ vma :: after ∧
      mm.getVmaByNum vmaid = .ok (some before.length) := by
  obtain ⟨curVma, vma, hlookup, hvma, -⟩ := incVmaLimit_cases hgrow
  unfold vmaAt at hvma
  cases curVma with
  | none => cases hvma
  | some index =>
      have hindex : index < mm.mmap.length := by
        by_contra hge
        rw [Option.bind_some, List.getElem?_eq_none (Nat.le_of_not_lt hge)] at hvma
        cases hvma
      obtain ⟨before, found, after, hmmap, rfl⟩ := exists_split hindex
      exact ⟨before, found, after, hmmap, hlookup⟩

/-! ## The answer of the check -/

/-- No comparison of two ranges ever holds. -/
theorem validateOverlapVmArea_eq_zero {before after : List VmAreaStruct} {vma : VmAreaStruct}
    {vmaid : Int} (hmmap : mm.mmap = before ++ vma :: after)
    (hlookup : mm.getVmaByNum vmaid = .ok (some before.length)) {vmastart vmaend : Addr}
    (hlt : vmastart < vmaend) : mm.validateOverlapVmArea vmaid vmastart vmaend = .ok 0 := by
  have hnonempty : mm.mmap ≠ [] := by
    rw [hmmap]
    exact List.append_ne_nil_of_right_ne_nil _ (List.cons_ne_nil _ _)
  unfold validateOverlapVmArea
  rw [if_neg (BitVec.not_le.mpr hlt), if_neg hnonempty, hlookup, ok_bind, vmaAt_of_split hmmap,
    ok_bind, if_neg]
  · rfl
  · intro hany
    obtain ⟨pair, -, hoverlap⟩ := List.any_eq_true.mp hany
    simp [overlap] at hoverlap

theorem checksOverlap_iff {vmaid : Word32} (hnumber : mm.HasNumber vmaid.toInt)
    {vmastart vmaend : Addr} (hlt : vmastart < vmaend) :
    mm.ChecksOverlap vmaid.toInt vmastart vmaend ↔
      ¬ mm.MeetsOther vmaid.toInt vmastart vmaend := by
  obtain ⟨before, vma, after, hmmap, hlookup⟩ := hnumber.exists_getVmaByNum
  unfold ChecksOverlap
  rw [validateOverlapVmArea_eq_zero hmmap hlookup hlt]
  constructor
  · rintro ⟨hrefuses, -⟩ hmeets
    have hresult : (0 : Int) = -1 := Except.ok.inj (hrefuses hmeets)
    exact absurd hresult (by decide)
  · intro hapart
    exact ⟨fun hmeets => absurd hmeets hapart, fun _ => rfl⟩

/-! ## Growing an area -/

/-- One area and the others. -/
theorem areasApart_split {before after : List VmAreaStruct} {vma : VmAreaStruct}
    (hmmap : mm.mmap = before ++ vma :: after) :
    mm.AreasApart ↔ (∀ other ∈ before ++ after, vma.range.Apart other.range) ∧
      (before ++ after).Pairwise fun former latter => former.range.Apart latter.range := by
  unfold AreasApart
  rw [hmmap, List.pairwise_middle Apart.symm, List.pairwise_cons]

/-- The growth completes, and moves the end of the area that the lookup finds if the planned
range is not empty. -/
theorem incVmaLimit_of_split {before after : List VmAreaStruct} {vma : VmAreaStruct}
    {vmaid : Int} (hmmap : mm.mmap = before ++ vma :: after)
    (hlookup : mm.getVmaByNum vmaid = .ok (some before.length)) (incSz : Addr) :
    mm.incVmaLimit vmaid incSz =
      if vma.sbrk < vma.sbrk + incSz then
        .ok (0, { mm with mmap := before ++ { vma with vmEnd := vma.sbrk + incSz } :: after })
      else .ok (-1, mm) := by
  unfold incVmaLimit getVmAreaNodeAtBrk
  simp only [hlookup, vmaAt_of_split hmmap, ok_bind, pure_eq_ok]
  by_cases hlt : vma.sbrk < vma.sbrk + incSz
  · have hset : mm.mmap.set before.length { vma with vmEnd := vma.sbrk + incSz } =
        before ++ { vma with vmEnd := vma.sbrk + incSz } :: after := by
      rw [hmmap, List.set_append_right _ _ (Nat.le_refl _), Nat.sub_self, List.set_cons_zero]
    rw [validateOverlapVmArea_eq_zero hmmap hlookup hlt, ok_bind, if_neg (by decide), if_pos hlt]
    simp only [setVmaAt, hset]
    rfl
  · have hrefused : mm.validateOverlapVmArea vmaid vma.sbrk (vma.sbrk + incSz) = .ok (-1) := by
      unfold validateOverlapVmArea
      rw [if_pos (BitVec.not_lt.mp hlt)]
    rw [hrefused, ok_bind, if_pos (by decide), if_neg hlt]

/-- The lookup names the one area that the growth can move. -/
theorem growsApart_iff {before after : List VmAreaStruct} {vma : VmAreaStruct} {vmaid : Int}
    (hmmap : mm.mmap = before ++ vma :: after)
    (hlookup : mm.getVmaByNum vmaid = .ok (some before.length)) (incSz : Addr) :
    mm.GrowsApart vmaid incSz ↔ (vma.sbrk < vma.sbrk + incSz →
      ∀ other ∈ before ++ after, (vma.grown incSz).Apart other.range) := by
  constructor
  · intro hall
    exact hall before vma after hmmap hlookup
  · intro hthis front found back hsplit hfound
    rw [hlookup] at hfound
    have hlength : before.length = front.length := Option.some.inj (Except.ok.inj hfound)
    obtain ⟨rfl, htail⟩ := List.append_inj (hmmap.symm.trans hsplit) hlength
    obtain ⟨rfl, rfl⟩ := List.cons.inj htail
    exact hthis

/-- From areas that are apart, growth leaves them apart exactly if the grown area meets no
other. -/
theorem areasApart_incVmaLimit_iff {vmaid status : Int} {incSz : Addr} {next : MmStruct}
    (hapart : mm.AreasApart) (hgrow : mm.incVmaLimit vmaid incSz = .ok (status, next)) :
    next.AreasApart ↔ mm.GrowsApart vmaid incSz := by
  obtain ⟨before, vma, after, hmmap, hlookup⟩ := exists_getVmaByNum_of_incVmaLimit hgrow
  rw [incVmaLimit_of_split hmmap hlookup] at hgrow
  rw [growsApart_iff hmmap hlookup]
  split at hgrow
  next hlt =>
    cases hgrow
    rw [areasApart_split rfl]
    exact ⟨fun hnext _ => hnext.1,
      fun hgrown => ⟨hgrown hlt, ((areasApart_split hmmap).mp hapart).2⟩⟩
  next hge =>
    cases hgrow
    exact iff_of_true hapart fun hlt => absurd hlt hge

/-- For a number of an area the check is right exactly for the planned ranges that meet no
other area, and the growth completes. For any number, growth keeps areas apart exactly where
the grown area meets no other. -/
theorem overlap_check_iff (mm : MmStruct) (vmaid : Word32) :
    (mm.HasNumber vmaid.toInt →
      (∀ vmastart vmaend : Addr, vmastart < vmaend →
        (mm.ChecksOverlap vmaid.toInt vmastart vmaend ↔
          ¬ mm.MeetsOther vmaid.toInt vmastart vmaend)) ∧
      ∀ incSz, ∃ status next, mm.incVmaLimit vmaid.toInt incSz = .ok (status, next)) ∧
    (mm.AreasApart → ∀ incSz status next,
      mm.incVmaLimit vmaid.toInt incSz = .ok (status, next) →
        (next.AreasApart ↔ mm.GrowsApart vmaid.toInt incSz)) := by
  refine ⟨fun hnumber => ⟨fun _ _ hlt => checksOverlap_iff hnumber hlt, fun incSz => ?_⟩,
    fun hapart _ _ _ hgrow => areasApart_incVmaLimit_iff hapart hgrow⟩
  obtain ⟨before, vma, after, hmmap, hlookup⟩ := hnumber.exists_getVmaByNum
  rw [incVmaLimit_of_split hmmap hlookup]
  split
  next => exact ⟨_, _, rfl⟩
  next => exact ⟨_, _, rfl⟩

/-- A descriptor with a second area, some pages above the first. -/
def twoAreas : MmStruct :=
  { initMm .null with
    mmap :=
      [{ vmId := 0
         vmStart := 0
         vmEnd := 0x1000
         sbrk := 0x1000
         vmFreergList := { nodes := [], stop := .null } },
       { vmId := 1
         vmStart := 0x2000
         vmEnd := 0x3000
         sbrk := 0x3000
         vmFreergList := { nodes := [], stop := .null } }] }

theorem areasApart_twoAreas : twoAreas.AreasApart := by
  refine List.pairwise_pair.mpr ?_
  intro addr hboth
  obtain ⟨⟨-, hbelow⟩, ⟨habove, -⟩⟩ := hboth
  simp only [VmAreaStruct.range] at hbelow habove
  bv_omega

/-- A planned page between the two areas is accepted, and growing by it keeps them apart. -/
theorem overlap_check_between :
    twoAreas.ChecksOverlap 0 0x1000 0x2000 ∧
      ∃ status next, twoAreas.incVmaLimit 0 0x1000 = .ok (status, next) ∧
        (next.AreasApart ↔ twoAreas.GrowsApart 0 0x1000) := by
  have hchecks := overlap_check_iff twoAreas 0
  obtain ⟨hanswers, hcompletes⟩ := hchecks.1 ⟨_, List.mem_cons_self, rfl⟩
  obtain ⟨status, next, hgrow⟩ := hcompletes 0x1000
  refine ⟨(hanswers 0x1000 0x2000 (by decide)).mpr ?_, status, next, hgrow,
    hchecks.2 areasApart_twoAreas 0x1000 status next hgrow⟩
  rintro ⟨vma, hmem, hother, hmeets⟩
  refine hmeets ?_
  rcases List.mem_pair.mp hmem with rfl | rfl
  · exact absurd rfl hother
  · intro addr hboth
    obtain ⟨⟨-, hbelow⟩, ⟨habove, -⟩⟩ := hboth
    simp only [VmAreaStruct.range] at hbelow habove
    bv_omega

/-- A planned range that reaches into the second area is accepted, and growing by it makes
the two areas overlap. -/
theorem not_overlap_check :
    twoAreas.MeetsOther 0 0x1000 0x2800 ∧
      twoAreas.validateOverlapVmArea 0 0x1000 0x2800 = .ok 0 ∧ twoAreas.AreasApart ∧
      ∃ next, twoAreas.incVmaLimit 0 0x1800 = .ok (0, next) ∧ ¬ next.AreasApart := by
  refine ⟨?_, ?_, areasApart_twoAreas, ?_⟩
  · refine ⟨_, List.mem_cons_of_mem _ List.mem_cons_self, by decide, ?_⟩
    intro hapart
    exact hapart 0x2000 ⟨⟨by decide, by decide⟩, ⟨by decide, by decide⟩⟩
  · exact @validateOverlapVmArea_eq_zero twoAreas [] _ _ 0 rfl rfl 0x1000 0x2800 (by decide)
  · refine ⟨_, @incVmaLimit_of_split twoAreas [] _ _ 0 rfl rfl 0x1800, ?_⟩
    intro hapart
    exact List.rel_of_pairwise_cons hapart List.mem_cons_self 0x2000
      ⟨⟨by decide, by decide⟩, ⟨by decide, by decide⟩⟩

end MmStruct

end SimpleOs
