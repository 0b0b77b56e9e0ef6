import SimpleOs.Kernel.Unmapped

/-! # Accesses to a region

`__read` and `__write` guard the same access differently. The guard of `__read` adds the
offset with wrap-around, and `__write` asks only whether there is an area. Both narrow
the address to `int`.
-/

namespace SimpleOs

variable {Proc : Type}

/-- The offset lies in the region, so the region is not empty. -/
def VmRgStruct.Inside (rg : VmRgStruct) (offset : Addr) : Prop :=
  offset.toNat < rg.rgEnd.toNat - rg.rgStart.toNat

instance (rg : VmRgStruct) (offset : Addr) : Decidable (rg.Inside offset) :=
  inferInstanceAs (Decidable (offset.toNat < rg.rgEnd.toNat - rg.rgStart.toNat))

/-- The bytes of RAM, the page table, the list of resident pages and both lists of free
frames are the same. -/
structure Krnl.SameMemory (krnl after : Krnl Proc) : Prop where
  storage : after.mram.storage = krnl.mram.storage
  leaf : ∀ pgn, after.mm.leaf pgn = krnl.mm.leaf pgn
  fifoPgn : after.mm.fifoPgn = krnl.mm.fifoPgn
  frames : after.mram.freeFpList = krnl.mram.freeFpList
  slots : after.activeMswp.freeFpList = krnl.activeMswp.freeFpList

namespace Krnl

/-- Both calls pass their guards and hand the address to `pg_getval` and `pg_setval`. These keep
22 bits of it, and may still fail to find the page, which both calls ignore. -/
structure Accepted (krnl : Krnl Proc) (rgid : Fin pagingMaxSymtblSz) (offset : Addr)
    (addr : Word32) : Prop where
  read : readByte krnl rgid.val offset =
    (pgGetval krnl addr).map fun (data, krnl) => (0, data, krnl)
  guard : ∃ area, krnl.mm.getVmaByNum 0 = .ok area
  write : ∀ value, writeByte krnl 0 rgid.val offset value =
    (pgSetval krnl addr value).map fun (_, krnl) => (0, krnl)

/-- Both calls fail without effect. -/
structure Refused (krnl : Krnl Proc) (rgid : Fin pagingMaxSymtblSz) (offset : Addr) :
    Prop where
  read : ∃ data after, readByte krnl rgid.val offset = .ok (-1, data, after) ∧
    krnl.SameMemory after
  write : ∀ value, ∃ after, writeByte krnl 0 rgid.val offset value = .ok (-1, after) ∧
    krnl.SameMemory after

/-- The offsets of a region are accepted, at their own addresses, and no others. -/
def Confined (krnl : Krnl Proc) (rgid : Fin pagingMaxSymtblSz) (offset : Addr) : Prop :=
  ((krnl.mm.symrgtbl rgid).Inside offset → ∃ addr : Word32,
    addr.toInt = (krnl.mm.symrgtbl rgid).rgStart.toNat + offset.toNat ∧
      krnl.Accepted rgid offset addr) ∧
  (¬ (krnl.mm.symrgtbl rgid).Inside offset → krnl.Refused rgid offset)

/-- Inside a region the address has to fit an `int`, and the area has to be found. Outside,
`__write` refuses only when there is no area at all, and `__read` when the region is the
cleared one or the sum, which may have wrapped, is not below its end. -/
def Guarded (krnl : Krnl Proc) (rgid : Fin pagingMaxSymtblSz) (offset : Addr) : Prop :=
  let rg := krnl.mm.symrgtbl rgid
  (rg.Inside offset →
    rg.rgStart.toNat + offset.toNat < 2 ^ 31 ∧
      ∃ position, krnl.mm.getVmaByNum 0 = .ok (some position)) ∧
  (¬ rg.Inside offset →
    krnl.mm.mmap = [] ∧
      ((rg.rgStart = 0 ∧ rg.rgEnd = 0) ∨ rg.rgEnd ≤ rg.rgStart + offset))

variable {krnl : Krnl Proc} {rgid : Fin pagingMaxSymtblSz} {offset : Addr}

/-! ## The guards -/

theorem getSymrgByid_of_fin (rgid : Fin pagingMaxSymtblSz) :
    MmStruct.getSymrgByid rgid.val = some rgid.val := by
  have hlt := rgid.isLt
  unfold MmStruct.getSymrgByid
  rw [if_neg (by omega), Int.toNat_natCast]

/-- `__read` refuses the cleared region and sums that are not below the end. -/
theorem readByte_of_refused
    (hguard : ((krnl.mm.symrgtbl rgid).rgStart = 0 ∧ (krnl.mm.symrgtbl rgid).rgEnd = 0) ∨
      (krnl.mm.symrgtbl rgid).rgEnd ≤ (krnl.mm.symrgtbl rgid).rgStart + offset) :
    readByte krnl rgid.val offset = .ok (-1, none, krnl) := by
  unfold readByte
  simp only [getSymrgByid_of_fin, MmStruct.symrg_of_fin, ok_bind]
  split
  next => rfl
  next hcleared => rw [if_pos (hguard.resolve_left hcleared)]; rfl

theorem readByte_of_accepted
    (hguard : ¬ (((krnl.mm.symrgtbl rgid).rgStart = 0 ∧ (krnl.mm.symrgtbl rgid).rgEnd = 0) ∨
      (krnl.mm.symrgtbl rgid).rgEnd ≤ (krnl.mm.symrgtbl rgid).rgStart + offset)) :
    readByte krnl rgid.val offset =
      (pgGetval krnl (((krnl.mm.symrgtbl rgid).rgStart + offset).setWidth 32)).map
        fun (data, krnl) => (0, data, krnl) := by
  obtain ⟨hcleared, hbelow⟩ := not_or.mp hguard
  unfold readByte
  simp only [getSymrgByid_of_fin, MmStruct.symrg_of_fin, ok_bind, if_neg hcleared]
  rw [if_neg hbelow]
  cases pgGetval krnl (((krnl.mm.symrgtbl rgid).rgStart + offset).setWidth 32) <;> rfl

/-- `__write` accepts every offset once it has found an area. -/
theorem writeByte_of_area {position : Nat}
    (harea : krnl.mm.getVmaByNum 0 = .ok (some position)) (value : Byte) :
    writeByte krnl 0 rgid.val offset value =
      (pgSetval krnl (((krnl.mm.symrgtbl rgid).rgStart + offset).setWidth 32) value).map
        fun (_, krnl) => (0, krnl) := by
  unfold writeByte
  simp only [harea, getSymrgByid_of_fin, MmStruct.symrg_of_fin, ok_bind]
  cases pgSetval krnl (((krnl.mm.symrgtbl rgid).rgStart + offset).setWidth 32) value <;> rfl

theorem getVmaByNum_eq_none_iff {mm : MmStruct} {vmaid : Int} :
    mm.getVmaByNum vmaid = .ok none ↔ mm.mmap = [] := by
  unfold MmStruct.getVmaByNum
  cases mm.mmap with
  | nil => exact ⟨fun _ => rfl, fun _ => rfl⟩
  | cons vma rest =>
      refine ⟨fun hnone => ?_, fun hnil => by cases hnil⟩
      obtain ⟨position, -, hposition⟩ := map_eq_ok.mp hnone
      cases hposition

theorem writeByte_of_no_area (harea : krnl.mm.mmap = []) (value : Byte) :
    writeByte krnl 0 rgid.val offset value = .ok (-1, krnl) := by
  unfold writeByte
  simp only [getVmaByNum_eq_none_iff.mpr harea, getSymrgByid_of_fin, ok_bind, pure_eq_ok]

/-- `__write` refuses only without an area. -/
theorem no_area_of_writeByte {value : Byte} {after : Krnl Proc}
    (hwrite : writeByte krnl 0 rgid.val offset value = .ok (-1, after)) :
    krnl.mm.mmap = [] := by
  cases harea : krnl.mm.getVmaByNum 0 with
  | error fault =>
      unfold writeByte at hwrite
      rw [harea] at hwrite
      cases hwrite
  | ok area =>
      cases area with
      | none => exact getVmaByNum_eq_none_iff.mp harea
      | some position =>
          rw [writeByte_of_area harea] at hwrite
          obtain ⟨⟨status, final⟩, -, hpair⟩ := map_eq_ok.mp hwrite
          cases hpair

/-- An address that is narrowed to `int` stays the same exactly below the sign bit. -/
theorem toInt_setWidth_of_lt {addr : Addr} (hlt : addr.toNat < 2 ^ 31) :
    (addr.setWidth 32).toInt = addr.toNat := by
  rw [BitVec.toInt_eq_toNat_bmod, BitVec.toNat_setWidth, Nat.mod_eq_of_lt (by omega),
    Int.bmod_eq_of_le (by omega) (by omega)]

/-! ## Confinement -/

theorem SameMemory.refl (krnl : Krnl Proc) : krnl.SameMemory krnl where
  storage := rfl
  leaf _ := rfl
  fifoPgn := rfl
  frames := rfl
  slots := rfl

theorem accepted_iff (hinside : (krnl.mm.symrgtbl rgid).Inside offset) :
    (∃ addr : Word32, addr.toInt = (krnl.mm.symrgtbl rgid).rgStart.toNat + offset.toNat ∧
        krnl.Accepted rgid offset addr) ↔
      (krnl.mm.symrgtbl rgid).rgStart.toNat + offset.toNat < 2 ^ 31 ∧
        ∃ position, krnl.mm.getVmaByNum 0 = .ok (some position) := by
  unfold VmRgStruct.Inside at hinside
  have hend := (krnl.mm.symrgtbl rgid).rgEnd.isLt
  have hsum : ((krnl.mm.symrgtbl rgid).rgStart + offset).toNat =
      (krnl.mm.symrgtbl rgid).rgStart.toNat + offset.toNat := by
    rw [BitVec.toNat_add, Nat.mod_eq_of_lt (by omega)]
  constructor
  · rintro ⟨addr, haddr, haccepted⟩
    have hlt := addr.toInt_lt
    refine ⟨by omega, ?_⟩
    obtain ⟨area, harea⟩ := haccepted.guard
    cases area with
    | some position => exact ⟨position, harea⟩
    | none =>
        have hwrite := haccepted.write 0
        rw [writeByte_of_no_area (getVmaByNum_eq_none_iff.mp harea)] at hwrite
        obtain ⟨⟨status, final⟩, -, hpair⟩ := map_eq_ok.mp hwrite.symm
        cases hpair
  · rintro ⟨hlt, position, harea⟩
    refine ⟨((krnl.mm.symrgtbl rgid).rgStart + offset).setWidth 32, ?_,
      { read := ?_, guard := ⟨some position, harea⟩, write := writeByte_of_area harea }⟩
    · rw [toInt_setWidth_of_lt (by omega), hsum, Int.natCast_add]
    · refine readByte_of_accepted fun hguard => ?_
      rcases hguard with ⟨hstart, hzero⟩ | hbelow
      · rw [hzero] at hinside
        simp at hinside
      · rw [BitVec.le_def, hsum] at hbelow
        omega

theorem refused_iff :
    krnl.Refused rgid offset ↔ krnl.mm.mmap = [] ∧
      (((krnl.mm.symrgtbl rgid).rgStart = 0 ∧ (krnl.mm.symrgtbl rgid).rgEnd = 0) ∨
        (krnl.mm.symrgtbl rgid).rgEnd ≤ (krnl.mm.symrgtbl rgid).rgStart + offset) := by
  constructor
  · intro hrefused
    obtain ⟨after, hwrite, -⟩ := hrefused.write 0
    refine ⟨no_area_of_writeByte hwrite, ?_⟩
    by_contra hguard
    obtain ⟨data, final, hread, -⟩ := hrefused.read
    rw [readByte_of_accepted hguard] at hread
    obtain ⟨⟨value, last⟩, -, htriple⟩ := map_eq_ok.mp hread
    cases htriple
  · rintro ⟨harea, hguard⟩
    exact
      { read := ⟨none, krnl, readByte_of_refused hguard, SameMemory.refl krnl⟩
        write := fun value => ⟨krnl, writeByte_of_no_area harea value, SameMemory.refl krnl⟩ }

/-- An access is confined exactly when it is guarded. -/
theorem confined_iff_guarded (krnl : Krnl Proc) (rgid : Fin pagingMaxSymtblSz) (offset : Addr) :
    krnl.Confined rgid offset ↔ krnl.Guarded rgid offset := by
  unfold Confined Guarded
  rw [refused_iff]
  constructor
  · rintro ⟨hinside, houtside⟩
    exact ⟨fun hoffset => (accepted_iff hoffset).mp (hinside hoffset), houtside⟩
  · rintro ⟨hinside, houtside⟩
    exact ⟨fun hoffset => (accepted_iff hoffset).mpr (hinside hoffset), houtside⟩

/-- A write to a register that was never allocated succeeds. -/
theorem not_confined_unallocated : ¬ (singleProcess.initMm .null).Confined 0 0 := by
  rintro ⟨-, houtside⟩
  obtain ⟨after, hwrite, -⟩ := (houtside (by decide)).write 0
  have harea := no_area_of_writeByte hwrite
  cases harea

end Krnl

end SimpleOs
