import Mathlib.Data.List.Pairwise
import SimpleOs.Memory.Vm

/-! # The lookup of an area by its number

`get_vma_by_num` stops at the first area whose number, narrowed to `int`, is not below the
one asked for. In a list in strictly increasing order this is the area with that number when
there is one. Between two numbers it is the next area, and past the last one there is nothing
to stop at: the loop reads the number of a `NULL` area.
-/

namespace SimpleOs

namespace MmStruct

/-! ## Where the loop stops -/

/-- The test at which the loop stops. -/
def stopsAt (vmaid : Int) (vma : VmAreaStruct) : Bool := decide (¬ toCInt vma.vmId < vmaid)

/-- The loop returns the first area that it stops at, and faults without one. -/
theorem findVma_eq (vmaid : Int) (position : Nat) (pvma : VmAreaStruct)
    (rest : List VmAreaStruct) :
    findVma vmaid position pvma rest =
      match (pvma :: rest).findIdx? (stopsAt vmaid) with
      | none => .error .nullDeref
      | some index => .ok (position + index) := by
  induction rest generalizing position pvma with
  | nil =>
      unfold findVma
      by_cases hlt : toCInt pvma.vmId < vmaid
      · simp [List.findIdx?_cons, stopsAt, hlt]
      · simp [List.findIdx?_cons, stopsAt, hlt]
  | cons next rest ih =>
      unfold findVma
      rw [List.findIdx?_cons]
      by_cases hlt : toCInt pvma.vmId < vmaid
      · have hnot : stopsAt vmaid pvma = false := by simp [stopsAt, hlt]
        rw [if_pos hlt, ih, hnot]
        cases (next :: rest).findIdx? (stopsAt vmaid) with
        | none => rfl
        | some index => simp [Nat.add_assoc, Nat.add_comm 1]
      · have hstop : stopsAt vmaid pvma = true := by simp [stopsAt, hlt]
        rw [if_neg hlt, hstop]
        rfl

theorem getVmaByNum_eq {mm : MmStruct} (hnonempty : mm.mmap ≠ []) (vmaid : Int) :
    mm.getVmaByNum vmaid =
      match mm.mmap.findIdx? (stopsAt vmaid) with
      | none => .error .nullDeref
      | some index => .ok (some index) := by
  unfold getVmaByNum
  cases hmmap : mm.mmap with
  | nil => exact absurd hmmap hnonempty
  | cons pvma rest =>
      simp only [findVma_eq, Nat.zero_add]
      cases (pvma :: rest).findIdx? (stopsAt vmaid) with
      | none => rfl
      | some index => rfl

/-- No `NULL` area is read exactly when the loop has an area to stop at. -/
theorem getVmaByNum_eq_ok_iff {mm : MmStruct} (hnonempty : mm.mmap ≠ []) (vmaid : Int) :
    (∃ curVma, mm.getVmaByNum vmaid = .ok curVma) ↔
      ∃ vma ∈ mm.mmap, vmaid ≤ toCInt vma.vmId := by
  rw [getVmaByNum_eq hnonempty]
  cases hfind : mm.mmap.findIdx? (stopsAt vmaid) with
  | none =>
      have hnone := List.findIdx?_eq_none_iff.mp hfind
      constructor
      · rintro ⟨curVma, h⟩
        cases h
      · rintro ⟨vma, hvma, hle⟩
        have hlt := hnone vma hvma
        simp only [stopsAt, decide_eq_false_iff_not, Decidable.not_not] at hlt
        omega
  | some index =>
      refine ⟨fun _ => ?_, fun _ => ⟨some index, rfl⟩⟩
      obtain ⟨hlt, hstop, -⟩ := List.findIdx?_eq_some_iff_getElem.mp hfind
      simp only [stopsAt, decide_eq_true_eq, Int.not_lt] at hstop
      exact ⟨_, List.getElem_mem hlt, hstop⟩

/-- A number above those of all areas, which a program can pass to the `memmap` system call,
brings the growth of the area to read a `NULL` one. -/
theorem incVmaLimit_of_above {mm : MmStruct} {vmaid : Int} (hnonempty : mm.mmap ≠ [])
    (habove : ∀ vma ∈ mm.mmap, toCInt vma.vmId < vmaid) (incSz : Addr) :
    mm.incVmaLimit vmaid incSz = .error .nullDeref := by
  have hnone : mm.mmap.findIdx? (stopsAt vmaid) = none := by
    apply List.findIdx?_eq_none_iff.mpr
    intro vma hvma
    simp [stopsAt, habove vma hvma]
  have hlookup := getVmaByNum_eq hnonempty vmaid
  rw [hnone] at hlookup
  unfold incVmaLimit getVmAreaNodeAtBrk
  simp only [hlookup, error_bind]

/-! ## The area with a number -/

/-- The area has the number that is asked for. -/
def isNumbered (vmaid : Int) (vma : VmAreaStruct) : Bool := decide ((vma.vmId.toNat : Int) = vmaid)

/-- The lookup returns the area with the number if there is one and `NULL` otherwise, and
reads no `NULL` area. -/
def LooksUp (mm : MmStruct) (vmaid : Int) : Prop :=
  mm.getVmaByNum vmaid = .ok (mm.mmap.findIdx? (isNumbered vmaid))

instance (mm : MmStruct) (vmaid : Int) : Decidable (mm.LooksUp vmaid) :=
  inferInstanceAs (Decidable (_ = _))

/-- The order of the areas by their numbers. -/
def NumbersIncrease (mm : MmStruct) : Prop :=
  mm.mmap.Pairwise fun former latter => former.vmId < latter.vmId

/-- Up to the area with the number asked for, which is an `int`, no number is narrowed. -/
theorem stopsAt_of_le {vma : VmAreaStruct} {vmaid : Word32}
    (hle : (vma.vmId.toNat : Int) ≤ vmaid.toInt) :
    stopsAt vmaid.toInt vma = isNumbered vmaid.toInt vma := by
  have hbound := BitVec.toInt_lt (x := vmaid)
  have hnarrow := (toCInt_toNat vma.vmId).1 (by omega)
  unfold stopsAt isNumbered
  rw [hnarrow, decide_eq_decide]
  omega

/-- When the area with the number is in the list, the loop stops there and not before. -/
theorem findIdx?_stopsAt_of_mem {areas : List VmAreaStruct} {vma : VmAreaStruct}
    {vmaid : Word32} (hincrease : areas.Pairwise fun former latter => former.vmId < latter.vmId)
    (hvma : vma ∈ areas) (hid : (vma.vmId.toNat : Int) = vmaid.toInt) :
    areas.findIdx? (stopsAt vmaid.toInt) = areas.findIdx? (isNumbered vmaid.toInt) := by
  induction areas with
  | nil => cases hvma
  | cons first rest ih =>
      obtain ⟨hfirst, hrest⟩ := List.pairwise_cons.mp hincrease
      rw [List.findIdx?_cons, List.findIdx?_cons]
      rcases List.mem_cons.mp hvma with rfl | hmem
      · have hnumbered : isNumbered vmaid.toInt vma = true := by simp [isNumbered, hid]
        rw [stopsAt_of_le (by omega), hnumbered]
        rfl
      · have hlt := BitVec.lt_def.mp (hfirst vma hmem)
        rw [stopsAt_of_le (by omega), ih hrest hmem]

/-- In a non-empty list in increasing order the lookup is right exactly for the numbers of
the areas that are in it. -/
theorem looksUp_iff_mem {mm : MmStruct} (hnonempty : mm.mmap ≠ [])
    (hincrease : mm.NumbersIncrease) (vmaid : Word32) :
    mm.LooksUp vmaid.toInt ↔ ∃ vma ∈ mm.mmap, (vma.vmId.toNat : Int) = vmaid.toInt := by
  unfold LooksUp
  rw [getVmaByNum_eq hnonempty]
  constructor
  · intro hlookup
    cases hstop : mm.mmap.findIdx? (stopsAt vmaid.toInt) with
    | none =>
        rw [hstop] at hlookup
        cases hlookup
    | some index =>
        rw [hstop] at hlookup
        have hfind : mm.mmap.findIdx? (isNumbered vmaid.toInt) = some index :=
          (Except.ok.inj hlookup).symm
        obtain ⟨hlt, hnumbered, -⟩ := List.findIdx?_eq_some_iff_getElem.mp hfind
        exact ⟨_, List.getElem_mem hlt, of_decide_eq_true hnumbered⟩
  · rintro ⟨vma, hvma, hid⟩
    rw [findIdx?_stopsAt_of_mem hincrease hvma hid]
    cases hfind : mm.mmap.findIdx? (isNumbered vmaid.toInt) with
    | none =>
        have hnot := List.findIdx?_eq_none_iff.mp hfind vma hvma
        exact absurd hid (of_decide_eq_false hnot)
    | some index => rfl

theorem numbersIncrease_initMm : (initMm .null).NumbersIncrease := by
  unfold NumbersIncrease initMm
  exact List.pairwise_singleton _ _

/-- A descriptor with areas 0, 2 and 5. -/
def threeAreas : MmStruct :=
  { initMm .null with
    mmap := [0, 2, 5].map fun vmId =>
      { vmId := vmId, vmStart := 0, vmEnd := 0, sbrk := 0,
        vmFreergList := { nodes := [], stop := .null } } }

theorem numbersIncrease_threeAreas : threeAreas.NumbersIncrease := by
  unfold NumbersIncrease threeAreas
  decide

/-- There the lookup of number 2 passes the first area and is right, and that of number 3 stops
at the last area and is wrong. -/
theorem looksUp_threeAreas :
    threeAreas.LooksUp (2 : Word32).toInt ∧ ¬ threeAreas.LooksUp (3 : Word32).toInt := by
  have hlookup : ∀ vmaid : Word32, threeAreas.LooksUp vmaid.toInt ↔
      ∃ vma ∈ threeAreas.mmap, (vma.vmId.toNat : Int) = vmaid.toInt :=
    looksUp_iff_mem (List.cons_ne_nil _ _) numbersIncrease_threeAreas
  constructor
  · exact (hlookup 2).mpr ⟨_, List.mem_cons_of_mem _ List.mem_cons_self, rfl⟩
  · rw [hlookup 3]
    decide

/-- In a new process a number above the only one reads the number of a `NULL` area, and a
number below it returns the area, which has another number. -/
theorem not_looksUp_initMm :
    (initMm .null).mmap ≠ [] ∧ (initMm .null).NumbersIncrease ∧
      (initMm .null).getVmaByNum 1 = .error .nullDeref ∧
      (initMm .null).getVmaByNum (-1) = .ok (some 0) ∧
      ¬ (initMm .null).LooksUp 1 ∧ ¬ (initMm .null).LooksUp (-1) := by
  refine ⟨List.cons_ne_nil _ _, numbersIncrease_initMm, ?_⟩
  decide

end MmStruct

end SimpleOs
