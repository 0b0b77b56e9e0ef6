import SimpleOs.Memory.Vm

/-! # The mapping path and the access path

`vmap_page_range` installs one entry for each 4096 bytes. The access path looks entries
up by 256-byte pages and adds an 8-bit offset to the frame. Two addresses 256 bytes apart
lie on one mapped page at the same access offset, so if both reach the frame of their
page they reach the same cell of it.
-/

namespace SimpleOs

/-- The page number that `pg_getval` and `pg_setval` look up for an address, which they
receive as an `int`. -/
def accessPgn (v : Addr) : Addr := (pagingPgn (v.setWidth 32)).signExtend 64

/-- The offset that they add to the frame. -/
def accessOffst (v : Addr) : Word32 := pagingOffst (v.setWidth 32)

namespace MmStruct

/-- The entry that the access path finds in the tables. -/
def accessPte (mm : MmStruct) (v : Addr) : Word32 := (mm.leaf (accessPgn v)).setWidth 32

/-- The physical cell behind an address. -/
def accessCell (mm : MmStruct) (v : Addr) : Word32 :=
  phyaddr (pagingFpn (mm.accessPte v)) (accessOffst v)

/-- The addresses of a range of pages. -/
def InPages (addr : Addr) (pgnum : Nat) (v : Addr) : Prop :=
  addr.toNat ≤ v.toNat ∧ v.toNat < addr.toNat + pgnum * 4096

/-- Every address of the range is translated through the present entry of its own page,
and no two of them to one cell. -/
structure Agrees (mm : MmStruct) (addr : Addr) (frames : List Addr) : Prop where
  present : ∀ v, InPages addr frames.length v → pagingPagePresent (mm.accessPte v) = true
  own_frame : ∀ v, InPages addr frames.length v →
    frames[(v.toNat - addr.toNat) / 4096]? = some ((pagingFpn (mm.accessPte v)).setWidth 64)
  cell_inj : ∀ v other, InPages addr frames.length v → InPages addr frames.length other →
    mm.accessCell v = mm.accessCell other → v = other

/-- Mapping needs only the global directory. -/
theorem exists_mapFrames (addr : Addr) (pgnum : Int) (frames : List Addr) (mm : MmStruct)
    (hpgd : mm.pgd.isSome = true) (retRg : VmRgStruct) (pgit : Nat) :
    ∃ mapped, mapFrames addr pgnum mm retRg pgit frames = .ok mapped := by
  induction frames generalizing mm retRg pgit with
  | nil => exact ⟨_, rfl⟩
  | cons fpn rest ih =>
      unfold mapFrames
      split
      · obtain ⟨pgd, hsome⟩ := Option.isSome_iff_exists.mp hpgd
        obtain ⟨next, hnext⟩ := exists_updatePte hsome
          ((addr + BitVec.ofNat 64 pgit * paging64Pagesz) >>> paging64AddrPtShift) (fpnEntry fpn)
        obtain ⟨_, -, rfl⟩ := updatePte_eq_ok hnext
        obtain ⟨mapped, hmapped⟩ := ih { mm with
          pgd := some _, fifoPgn := _ :: mm.fifoPgn } rfl _ (pgit + 1)
        exact ⟨mapped, bind_eq_ok.mpr ⟨_, hnext, hmapped⟩⟩
      · exact ⟨_, rfl⟩

/-- An aligned address and the one 256 bytes further have the same access offset. -/
theorem accessOffst_add (addr : Addr) : accessOffst (addr + 256) = accessOffst addr := by
  apply BitVec.eq_of_toNat_eq
  unfold accessOffst
  rw [pagingOffst_toNat, pagingOffst_toNat, BitVec.toNat_setWidth, BitVec.toNat_setWidth,
    BitVec.toNat_add]
  have hstep : (256 : Addr).toNat = 256 := rfl
  rw [hstep]
  omega

/-- No table makes the two paths agree on an aligned range. -/
theorem not_agrees (mm : MmStruct) {addr : Addr} {frames : List Addr}
    (haligned : addr.toNat % 4096 = 0) (hframes : frames ≠ []) : ¬ mm.Agrees addr frames := by
  intro hagrees
  have hlength : 0 < frames.length := List.length_pos_of_ne_nil hframes
  have hbound := addr.isLt
  have hnext : (addr + 256).toNat = addr.toNat + 256 := by
    rw [BitVec.toNat_add, show (256 : Addr).toNat = 256 from rfl]
    omega
  have hfirst : InPages addr frames.length addr := ⟨Nat.le_refl _, by omega⟩
  have hsecond : InPages addr frames.length (addr + 256) := by
    unfold InPages
    rw [hnext]
    omega
  -- both addresses lie on the first mapped page, whose frame the two paths would have to use
  have hownFirst := hagrees.own_frame addr hfirst
  have hownSecond := hagrees.own_frame (addr + 256) hsecond
  have hindex : (addr + 256).toNat - addr.toNat = 256 := by omega
  rw [Nat.sub_self, Nat.zero_div] at hownFirst
  rw [hindex, show 256 / 4096 = 0 from rfl, hownFirst, Option.some.injEq] at hownSecond
  have hfpn : pagingFpn (mm.accessPte addr) = pagingFpn (mm.accessPte (addr + 256)) := by
    apply BitVec.eq_of_toNat_eq
    have hnat := congrArg BitVec.toNat hownSecond
    rw [BitVec.toNat_setWidth, BitVec.toNat_setWidth] at hnat
    omega
  -- with one frame and one offset they are one cell
  have hcell : mm.accessCell addr = mm.accessCell (addr + 256) := by
    unfold accessCell
    rw [hfpn, accessOffst_add]
  have hsame := congrArg BitVec.toNat (hagrees.cell_inj _ _ hfirst hsecond hcell)
  omega

/-- Mapping a list of frames at an aligned address always completes, and the access path
never agrees with what it installed. -/
theorem vmapPageRange_disagrees (mm : MmStruct) (addr : Addr) (frames : List Addr)
    (hpgd : mm.pgd.isSome = true) (haligned : addr.toNat % 4096 = 0) (hframes : frames ≠ []) :
    ∃ mapped retRg, mm.vmapPageRange addr frames.length frames = .ok (mapped, retRg) ∧
      ¬ mapped.Agrees addr frames := by
  obtain ⟨⟨mapped, retRg⟩, hmapped⟩ :=
    exists_mapFrames addr frames.length frames mm hpgd { rgStart := addr, rgEnd := addr } 0
  exact ⟨mapped, retRg, hmapped, not_agrees mapped haligned hframes⟩

theorem vmapPageRange_disagrees_two_pages :
    ∃ mapped retRg, (initMm .null).vmapPageRange 0x4000 ([3, 5] : List Addr).length [3, 5] =
        .ok (mapped, retRg) ∧ ¬ mapped.Agrees 0x4000 [3, 5] :=
  vmapPageRange_disagrees (initMm .null) 0x4000 [3, 5] rfl (by decide) (by decide)

/-- After mapping address 0 to frame 3, the access path finds page 0 and misses the
entry at address 256, which lies on the same page. -/
theorem disagrees_at_256 :
    ∃ mapped retRg, (initMm .null).vmapPageRange 0 1 [3] = .ok (mapped, retRg) ∧
      mapped.accessCell 0 = 0x300 ∧ pagingPagePresent (mapped.accessPte 256) = false ∧
      ¬ mapped.Agrees 0 [3] := by
  obtain ⟨⟨mapped, retRg⟩, hmapped⟩ := exists_mapFrames 0 1 [3] (initMm .null) rfl
    { rgStart := 0, rgEnd := 0 } 0
  have hcells : ((initMm .null).vmapPageRange 0 1 [3]).map (fun mapped =>
      (mapped.1.accessCell 0, pagingPagePresent (mapped.1.accessPte 256))) =
        .ok (0x300, false) := by
    decide +kernel
  have hrun : (initMm .null).vmapPageRange 0 1 [3] = .ok (mapped, retRg) := hmapped
  rw [hrun] at hcells
  obtain ⟨hcell, habsent⟩ := Prod.mk.inj (Except.ok.inj hcells)
  exact ⟨mapped, retRg, hrun, hcell, habsent, not_agrees mapped (by decide) (by decide)⟩

end MmStruct

end SimpleOs
