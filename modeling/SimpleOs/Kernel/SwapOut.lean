import SimpleOs.Kernel.PageFault
import SimpleOs.Kernel.Unmapped

/-! # A page that was swapped out

Copying a page to a slot keeps its bytes there. But `pte_set_swap` leaves the entry present,
and the fault handlers ask for that bit first. So a read of the page never looks at the slot:
it goes on with whatever the frame field of the overwritten entry says.
-/

namespace SimpleOs

variable {Proc : Type}

/-- Other bytes in the cells of a frame. -/
def MemphyStruct.overwrite (mp : MemphyStruct) (fpn : Addr) (bytes : Nat → Byte) :
    MemphyStruct :=
  { mp with
    storage := mp.storage.mapIdx fun index byte =>
      if index / pagingPagesz = fpn.toNat then bytes (index % pagingPagesz) else byte }

/-- A byte of a frame. -/
def MemphyStruct.frameByte (mp : MemphyStruct) (fpn cellidx : Nat) : Option Byte :=
  mp.storage[fpn * pagingPagesz + cellidx]?

/-- A page is moved to a slot: its frame is copied, its entry marked, its frame reused. -/
def swapOut (junk : Byte) (krnl : Krnl Proc) (pgn fpn : Addr) (swptyp : Int) (slot : Addr)
    (bytes : Nat → Byte) : Except Fault (Krnl Proc) := do
  let krnl ← mmSwapPage junk krnl fpn slot
  let mm ← krnl.mm.pteSetSwap pgn swptyp slot
  return { krnl with mm := mm, mram := krnl.mram.overwrite fpn bytes }

namespace Krnl

/-- Between random access devices, a page that is mapped to a RAM frame. -/
structure Resident (krnl : Krnl Proc) (pgn fpn : Addr) : Prop where
  directories : krnl.mm.HasDirectories
  mram_random : krnl.mram.rdmflg = true
  mswp_random : krnl.activeMswp.rdmflg = true
  mapped : pteFrame (krnl.mm.pte pgn) = some fpn.toNat
  frame : krnl.mram.HasFrame fpn

end Krnl

/-- The call returned 0 and the byte at the offset, and the page, with all its bytes, is in a
RAM frame that its entry names. -/
def Restored (byteAt : Nat → Option Byte) (pgn : Addr) (off : Nat) (destination : Word32)
    (outcome : Except Fault (Int × PagingProc Proc)) : Prop :=
  ∃ after byte fpn, outcome = .ok (0, after) ∧ byteAt off = some byte ∧
    after.reg destination = .ok (byte.signExtend 64) ∧
    pteFrame (after.krnl.mm.pte pgn) = some fpn ∧
    ∀ cellidx < pagingPagesz, after.krnl.mram.frameByte fpn cellidx = byteAt cellidx

variable {krnl after : Krnl Proc} {pgn fpn slot : Addr}

/-! ## Swapping out -/

/-- Swapping out completes. The slot has the bytes of the page, and the entry is present. -/
theorem swapOut_of_resident (junk : Byte) (hresident : krnl.Resident pgn fpn)
    (hslot : krnl.activeMswp.HasFrame slot) (swptyp : Int) (bytes : Nat → Byte) :
    ∃ after, swapOut junk krnl pgn fpn swptyp slot bytes = .ok after ∧
      after.mm.HasDirectories ∧
      after.mm.leaf pgn = swapEntry swptyp slot (krnl.mm.leaf pgn) ∧
      after.mram = krnl.mram.overwrite fpn bytes ∧
      ∀ cellidx < pagingPagesz, after.activeMswp.frameByte slot.toNat cellidx =
        krnl.mram.frameByte fpn.toNat cellidx := by
  obtain ⟨storage, hcopy, -, hstorage⟩ := swapCpPage_of_hasFrame junk hresident.mram_random
    hresident.mswp_random hresident.frame hslot
  obtain ⟨pgd, hpgd⟩ := Option.isSome_iff_exists.mp hresident.directories.1
  obtain ⟨mm, hmm⟩ := MmStruct.exists_updatePte hpgd pgn (swapEntry swptyp slot)
  refine ⟨{ krnl with
    mm := mm
    mram := krnl.mram.overwrite fpn bytes
    activeMswp := { krnl.activeMswp with storage := storage } }, ?_, ?_, ?_, rfl, ?_⟩
  · unfold swapOut mmSwapPage
    simp only [hcopy, ok_bind, pure_eq_ok, MmStruct.pteSetSwap, hmm]
  · exact (hresident.directories.updatePte hmm).1
  · exact MmStruct.leaf_updatePte_self hmm
  · intro cellidx hcellidx
    have hpos : 0 < pagingPagesz := by decide
    change storage[slot.toNat * pagingPagesz + cellidx]? = _
    rw [hstorage, Nat.mul_comm slot.toNat, Nat.mul_add_div hpos, Nat.div_eq_of_lt hcellidx,
      Nat.add_zero, if_pos rfl, Nat.mul_add_mod, Nat.mod_eq_of_lt hcellidx]
    rfl

/-! ## Reading a present page -/

/-- The end of `pgread` delivers the byte at the address that the entry gives. -/
theorem exists_pgreadByte (junk : Junk) (proc : PagingProc Proc) {off : Addr}
    {destination : Word32} (hdestination : destination.toNat < numRegs) {byte : Byte}
    (hdirectories : proc.krnl.mm.HasDirectories) (hrandom : proc.krnl.mram.rdmflg = true)
    (hbyte : proc.krnl.mram.storage[(phyadr (proc.krnl.mm.pte pgn) off).toNat]? = some byte) :
    ∃ after, pgreadByte junk proc pgn off destination = .ok (0, after) ∧
      after.reg destination = .ok (byte.signExtend 64) := by
  obtain ⟨walked, hwalked, -⟩ := hdirectories.pteGetEntry pgn
  obtain ⟨hlt, rfl⟩ := List.getElem?_eq_some_iff.mp hbyte
  unfold pgreadByte
  simp only [hwalked]
  rw [read_of_lt hrandom hlt, ok_bind]
  obtain ⟨after, hafter⟩ := exists_setReg
    { proc with krnl := { proc.krnl with mm := walked } } hdestination
    (proc.krnl.mram.storage[(phyadr (proc.krnl.mm.pte pgn) off).toNat].signExtend 64)
  exact ⟨after, bind_eq_ok.mpr ⟨after, hafter, rfl⟩, (setReg_eq_ok hafter).2.1⟩

/-- Reading a page whose entry is present goes straight to the byte. -/
theorem pgread_of_present (junk : Junk) {proc : PagingProc Proc} {source : Word32}
    {offset base : Addr} (destination : Word32) {mm : MmStruct} {pte : Word32}
    (hbase : proc.reg source = .ok base)
    (hentry : proc.krnl.mm.pteGetEntry (pagingPgn (base + offset)) = (pte, mm))
    (hpresent : pagingPagePresent pte = true) :
    pgread junk proc source offset destination =
      pgreadByte junk { proc with krnl := { proc.krnl with mm := mm } }
        (pagingPgn (base + offset)) (pagingOffst (base + offset)) destination := by
  rw [pgread_eq junk destination hbase hentry, if_pos hpresent]

/-- So it changes no entry, whatever else the entry says. -/
theorem pgread_leaf_of_present {junk : Junk} (proc : PagingProc Proc) {next : PagingProc Proc}
    {source destination : Word32} {offset base : Addr} {status : Int}
    (hdirectories : proc.krnl.mm.HasDirectories) (hbase : proc.reg source = .ok base)
    (hpresent : pagingPagePresent (proc.krnl.mm.pte (pagingPgn (base + offset))) = true)
    (hread : pgread junk proc source offset destination = .ok (status, next)) :
    next.krnl.mm.leaf = proc.krnl.mm.leaf := by
  obtain ⟨walked, hwalked, hwalkedDirectories, hleaf, -⟩ :=
    hdirectories.pteGetEntry (pagingPgn (base + offset))
  rw [pgread_of_present junk destination hbase hwalked hpresent] at hread
  exact (sameOwners_pgreadByte hwalkedDirectories hread).leaf.trans hleaf

/-! ## Restoring -/

/-- No page that is swapped out is ever restored by reading it. -/
theorem not_restored_of_swapOut (copied : Byte) (hresident : krnl.Resident pgn fpn)
    (hslot : krnl.activeMswp.HasFrame slot) (swptyp : Int) (bytes : Nat → Byte) (junk : Junk)
    (regs : Fin numRegs → Addr) {source : Word32} (hsource : source.toNat < numRegs)
    (destination : Word32) (offset : Addr)
    (hpage : pagingPgn (regs ⟨source.toNat, hsource⟩ + offset) = pgn) :
    ∃ after, swapOut copied krnl pgn fpn swptyp slot bytes = .ok after ∧
      ¬ Restored (krnl.mram.frameByte fpn.toNat) pgn
        (pagingOffst (regs ⟨source.toNat, hsource⟩ + offset)).toNat destination
        (pgread junk { regs := regs, krnl := after } source offset destination) := by
  obtain ⟨after, hout, hdirectories, hentry, -, -⟩ :=
    swapOut_of_resident copied hresident hslot swptyp bytes
  refine ⟨after, hout, ?_⟩
  rintro ⟨next, byte, frame, hread, -, -, hframe, -⟩
  have hpresent : pagingPagePresent
      (after.mm.pte (pagingPgn (regs ⟨source.toNat, hsource⟩ + offset))) = true := by
    unfold MmStruct.pte
    rw [hpage, hentry]
    exact pagingPagePresent_swapEntry swptyp slot (krnl.mm.leaf pgn)
  have hleaf := pgread_leaf_of_present { regs := regs, krnl := after } hdirectories
    (reg_of_lt hsource) hpresent hread
  -- the page is still marked as swapped, so it is in no RAM frame
  unfold MmStruct.pte at hframe
  rw [hleaf, hentry, pteFrame_swapEntry] at hframe
  cases hframe

/-- Page 0 is in the second of two frames, full of sevens, and there is one slot. -/
def sevens : Krnl Unit where
  runningList := ProcQueue.zero
  mm :=
    { initMm .null with
      pgd := some (Radix.modify 0 (fpnEntry 1) 4 (Radix.fresh 0 4) (getPdFromPagenum 0))
      pt := some fun _ => 0
      fifoPgn := [0] }
  mram :=
    { storage := List.replicate 256 0 ++ List.replicate 256 7
      maxsz := 512
      rdmflg := true
      cursor := 0
      freeFpList := { nodes := [0], stop := .null } }
  activeMswp :=
    { storage := List.replicate 256 0
      maxsz := 256
      rdmflg := true
      cursor := 0
      freeFpList := { nodes := [0], stop := .null } }

theorem resident_sevens : sevens.Resident 0 1 where
  directories := by decide
  mram_random := rfl
  mswp_random := rfl
  mapped := by
    have hleaf : sevens.mm.leaf 0 = fpnEntry 1 0 := Radix.get_modify_self ..
    unfold MmStruct.pte
    rw [hleaf, pteFrame_fpnEntry]
    rfl
  frame := ⟨by decide +kernel, by decide⟩

theorem hasFrame_sevens : sevens.activeMswp.HasFrame 0 :=
  ⟨by decide +kernel, by decide⟩

theorem not_restored_of_swapOut_sevens :
    ∃ after, swapOut 0 sevens 0 1 0 0 (fun _ => 0) = .ok after ∧
      ¬ Restored (sevens.mram.frameByte 1) 0 5 1
        (pgread ⟨0, 0, 0⟩ { regs := fun _ => 0, krnl := after } 0 5 1) :=
  not_restored_of_swapOut 0 resident_sevens hasFrame_sevens 0 (fun _ => 0) ⟨0, 0, 0⟩
    (fun _ => 0) (by decide) 1 5 (by decide)

/-- Its slot number makes the entry of page 0 name frame 0, so a read returns a byte of that
frame. -/
theorem reads_frame_zero :
    ∃ krnl after, swapOut 0 sevens 0 1 0 0 (fun _ => 0) = .ok krnl ∧
      pgread ⟨0, 0, 0⟩ { regs := fun _ => 0, krnl := krnl } 0 5 1 = .ok (0, after) ∧
      after.reg 1 = .ok 0 ∧
      ¬ Restored (sevens.mram.frameByte 1) 0 5 1 (.ok (0, after)) := by
  obtain ⟨krnl, hout, hdirectories, hentry, hmram, -⟩ := swapOut_of_resident 0 resident_sevens
    hasFrame_sevens 0 fun _ => 0
  obtain ⟨walked, hwalked, hwalkedDirectories, hleaf, -⟩ := hdirectories.pteGetEntry 0
  have hpte : krnl.mm.pte 0 = (swapEntry 0 0 (fpnEntry 1 0)).setWidth 32 := by
    unfold MmStruct.pte
    rw [hentry]
    rfl
  have hbyte : krnl.mram.storage[(phyadr (walked.pte 0) 5).toNat]? = some 0 := by
    rw [MmStruct.pte_congr hleaf, hpte, hmram]
    decide +kernel
  have hone : (1 : Word32).toNat < numRegs := by decide
  obtain ⟨after, hread, hreg⟩ := exists_pgreadByte ⟨0, 0, 0⟩
    { regs := fun _ => 0, krnl := { krnl with mm := walked } } hone hwalkedDirectories
    (hmram ▸ rfl) hbyte
  refine ⟨krnl, after, hout, ?_, hreg, ?_⟩
  · have hpage : pagingPgn ((0 : Addr) + 5) = 0 := by decide
    have hoff : pagingOffst ((0 : Addr) + 5) = 5 := by decide
    have hbase : ({ regs := fun _ => 0, krnl := krnl } : PagingProc Unit).reg 0 = .ok 0 := rfl
    have hpresent : pagingPagePresent (krnl.mm.pte 0) = true := by
      rw [hpte]
      exact pagingPagePresent_swapEntry 0 0 (fpnEntry 1 0)
    rw [pgread_of_present ⟨0, 0, 0⟩ 1 hbase (hpage.symm ▸ hwalked) hpresent, hpage, hoff]
    exact hread
  · rintro ⟨next, byte, frame, hnext, hseven, hvalue, -, -⟩
    obtain rfl := (Prod.mk.inj (Except.ok.inj hnext)).2
    have hwritten : sevens.mram.frameByte 1 5 = some 7 := by decide +kernel
    obtain rfl := Option.some.inj (hwritten.symm.trans hseven)
    have hwrong := Except.ok.inj (hreg.symm.trans hvalue)
    exact absurd hwrong (by decide)

end SimpleOs
