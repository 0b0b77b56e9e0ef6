import SimpleOs.Memory.Entry
import SimpleOs.Memory.FrameAllocator

/-! # Frame numbers in page table entries

A page table entry has 13 bits for a RAM frame and 21 for a slot of the swap device, and its
writers mask what they are given. The header declares devices of `BIT(21)` and `BIT(29)` bytes,
whose frames just fit. Nothing checks the configured size of a device against these, so the
numbers of a device fit exactly when it has no more frames than the field has values.
-/

namespace SimpleOs

/-- `PAGING_MEMRAMSZ` -/
def pagingMemramsz : Word32 := bit 21

/-- `PAGING_MEMSWPSZ` -/
def pagingMemswpsz : Word32 := bit 29

namespace FrameUse

/-! ## The frames that can be obtained -/

/-- Some sequence of calls makes the users hold the frame. -/
def Obtains (use : FrameUse) (fpn : Addr) : Prop :=
  ∃ calls, ∃ target ∈ Runs.visited FrameUse.step use calls, fpn ∈ target.held

/-- A call hands out free frames only and frees held frames only. -/
theorem mem_of_step {use next : FrameUse} {call : FrameCall} (hstep : use.step call = some next)
    {fpn : Addr} (hmem : fpn ∈ next.held ++ next.device.freeFpList.nodes) :
    fpn ∈ use.held ++ use.device.freeFpList.nodes := by
  cases call with
  | get =>
      obtain ⟨⟨found, device⟩, hget, rfl⟩ := Option.map_eq_some_iff.mp hstep
      rw [Runs.toOption_eq_some_iff] at hget
      obtain ⟨hfirst, rfl⟩ := MemphyStruct.getFreefp_eq_ok hget
      cases hnodes : use.device.freeFpList.nodes with
      | nil =>
          rw [hnodes] at hfirst
          subst hfirst
          simpa [hnodes] using hmem
      | cons head rest =>
          rw [hnodes] at hfirst
          subst hfirst
          simp only [hnodes, List.head?_cons, Option.toList_some, List.tail_cons] at hmem
          exact List.perm_middle.symm.subset hmem
  | put back =>
      simp only [FrameUse.step] at hstep
      split at hstep
      next hheld =>
        cases hstep
        rcases List.mem_append.mp hmem with hleft | hright
        · exact List.mem_append_left _ (List.mem_of_mem_erase hleft)
        · rcases List.mem_cons.mp hright with rfl | hfree
          · exact List.mem_append_left _ hheld
          · exact List.mem_append_right _ hfree
      next => cases hstep

/-- When nothing is held at first, the frames of the free list can be obtained and no
others. -/
theorem obtains_iff {device : MemphyStruct} {fpn : Addr} :
    Obtains { device := device, held := [] } fpn ↔ fpn ∈ device.freeFpList.nodes := by
  constructor
  · rintro ⟨calls, target, htarget, hheld⟩
    refine Runs.visited_invariant
      (fun use => ∀ fpn ∈ use.held ++ use.device.freeFpList.nodes, fpn ∈ device.freeFpList.nodes)
      (fun _ => True) (fun use call next _ hsub hstep other hother => ?_) (fun _ _ => trivial)
      (fun _ hother => hother) target htarget fpn (List.mem_append_left _ hheld)
    exact hsub other (mem_of_step hstep hother)
  · intro hmem
    obtain ⟨calls, final, hrun, -, hheld⟩ :=
      exists_exhausted { device := device, held := [] }
    refine ⟨calls, final, Runs.mem_visited_iff.mpr ⟨calls, List.prefix_rfl, hrun⟩, ?_⟩
    exact (hheld fpn).mpr hmem

/-- The list of a device of a positive size: its frames, or below one page the list that the
structure had before. -/
theorem nodes_initMemphy (mp : MemphyStruct) {maxSize : Addr} (hsize : maxSize.toNat < 2 ^ 31)
    (randomflg : Int) (garbage : ListEnd) :
    (initMemphy mp maxSize randomflg garbage).freeFpList.nodes =
      if maxSize.toNat < pagingPagesz then mp.freeFpList.nodes else framesOf maxSize := by
  rw [freeFpList_initMemphy]
  unfold MemphyStruct.format framesOf
  simp only [toNat_tdiv, (toCInt_toNat maxSize).1 hsize, Int.toNat_natCast]
  by_cases hsmall : maxSize.toNat < pagingPagesz
  · rw [if_pos (Nat.div_eq_of_lt hsmall), if_pos hsmall]
  · have hsome : maxSize.toNat / pagingPagesz ≠ 0 := by
      unfold pagingPagesz at hsmall ⊢
      omega
    rw [if_neg hsome, if_neg hsmall]

end FrameUse

/-! ## A field of an entry -/

section Field

variable (write : MmStruct → Addr → Addr → Except Fault MmStruct) (read : Word32 → Word32)

/-- Every frame that can be obtained reads back from the entry of any page that it is written
to, and two frames never make the same entry. -/
structure EncodesFrames (use : FrameUse) : Prop where
  decoded : ∀ fpn, use.Obtains fpn → ∀ mm next pgn, write mm pgn fpn = .ok next →
    (read ((next.leaf pgn).setWidth 32)).setWidth 64 = fpn
  distinct : ∀ fpn other, use.Obtains fpn → use.Obtains other → fpn ≠ other →
    ∀ mm next pgn mm' next' pgn', write mm pgn fpn = .ok next → write mm' pgn' other = .ok next' →
      next.leaf pgn ≠ next'.leaf pgn'

variable {write read}

/-- Where the reader gives a number up to the width of the field, and some write completes,
the frames are encoded exactly when all of them fit. -/
theorem encodesFrames_iff_fits {use : FrameUse} {width : Nat}
    (hwrite : ∀ fpn, ∃ mm next pgn, write mm pgn fpn = .ok next)
    (hread : ∀ mm next pgn fpn, write mm pgn fpn = .ok next →
      (read ((next.leaf pgn).setWidth 32)).toNat = fpn.toNat % 2 ^ width) :
    EncodesFrames write read use ↔ ∀ fpn, use.Obtains fpn → fpn.toNat < 2 ^ width := by
  have hwide : ∀ pte : Word32, (pte.setWidth 64).toNat = pte.toNat := by
    intro pte
    rw [BitVec.toNat_setWidth]
    exact Nat.mod_eq_of_lt (Nat.lt_trans pte.isLt (by decide))
  constructor
  · intro hencodes fpn hobtains
    obtain ⟨mm, next, pgn, hnext⟩ := hwrite fpn
    have hdecoded := congrArg BitVec.toNat (hencodes.decoded fpn hobtains mm next pgn hnext)
    rw [hwide, hread mm next pgn fpn hnext] at hdecoded
    rw [← hdecoded]
    exact Nat.mod_lt _ (Nat.two_pow_pos width)
  · intro hfits
    have hdecoded : ∀ fpn, use.Obtains fpn → ∀ mm next pgn, write mm pgn fpn = .ok next →
        (read ((next.leaf pgn).setWidth 32)).setWidth 64 = fpn := by
      intro fpn hobtains mm next pgn hnext
      apply BitVec.eq_of_toNat_eq
      rw [hwide, hread mm next pgn fpn hnext, Nat.mod_eq_of_lt (hfits fpn hobtains)]
    refine { decoded := hdecoded, distinct := ?_ }
    intro fpn other hfpn hother hne mm next pgn mm' next' pgn' hnext hnext' hsame
    apply hne
    rw [← hdecoded fpn hfpn mm next pgn hnext, hsame,
      hdecoded other hother mm' next' pgn' hnext']

end Field

/-- The RAM frames of a device, from `pte_set_fpn` to `PAGING_FPN`. -/
def EncodesRam (mram : MemphyStruct) : Prop :=
  EncodesFrames MmStruct.pteSetFpn pagingFpn { device := mram, held := [] }

/-- The slots of a swap device, from `pte_set_swap` to `PAGING_SWP`. -/
def EncodesSwap (swptyp : Int) (mswp : MemphyStruct) : Prop :=
  EncodesFrames (fun mm pgn swpoff => mm.pteSetSwap pgn swptyp swpoff) pagingSwp
    { device := mswp, held := [] }

theorem encodesRam_iff {mram : MemphyStruct} :
    EncodesRam mram ↔ ∀ fpn ∈ mram.freeFpList.nodes, fpn.toNat < 2 ^ 13 := by
  have hfits : EncodesRam mram ↔ ∀ fpn, FrameUse.Obtains { device := mram, held := [] } fpn →
      fpn.toNat < 2 ^ 13 := by
    apply encodesFrames_iff_fits
    · intro fpn
      obtain ⟨next, hnext⟩ :=
        MmStruct.exists_updatePte (show (initMm .null).pgd = some _ from rfl) 0 (fpnEntry fpn)
      exact ⟨initMm .null, next, 0, hnext⟩
    · intro mm next pgn fpn hnext
      rw [MmStruct.leaf_updatePte_self hnext]
      exact pagingFpn_fpnEntry fpn _
  simpa only [FrameUse.obtains_iff] using hfits

theorem encodesSwap_iff {swptyp : Int} {mswp : MemphyStruct} :
    EncodesSwap swptyp mswp ↔ ∀ fpn ∈ mswp.freeFpList.nodes, fpn.toNat < 2 ^ 21 := by
  have hfits : EncodesSwap swptyp mswp ↔
      ∀ fpn, FrameUse.Obtains { device := mswp, held := [] } fpn → fpn.toNat < 2 ^ 21 := by
    apply encodesFrames_iff_fits
    · intro fpn
      obtain ⟨next, hnext⟩ := MmStruct.exists_updatePte
        (show (initMm .null).pgd = some _ from rfl) 0 (swapEntry swptyp fpn)
      exact ⟨initMm .null, next, 0, hnext⟩
    · intro mm next pgn fpn hnext
      rw [MmStruct.leaf_updatePte_self hnext]
      exact pagingSwp_swapEntry swptyp fpn _
  simpa only [FrameUse.obtains_iff] using hfits

/-! ## Devices of a configured size -/

/-- The device has at most so many frames. One without a whole frame has the list that the
structure had before. -/
def FramesFit (count : Nat) (mp : MemphyStruct) (maxSize : Addr) : Prop :=
  if maxSize.toNat < pagingPagesz then ∀ fpn ∈ mp.freeFpList.nodes, fpn.toNat < count
  else maxSize.toNat / pagingPagesz ≤ count

instance (count : Nat) (mp : MemphyStruct) (maxSize : Addr) :
    Decidable (FramesFit count mp maxSize) :=
  if hsmall : maxSize.toNat < pagingPagesz then
    decidable_of_iff (mp.freeFpList.nodes.all fun fpn => decide (fpn.toNat < count)) (by
      unfold FramesFit
      rw [if_pos hsmall, List.all_eq_true]
      simp only [decide_eq_true_eq])
  else
    decidable_of_iff (maxSize.toNat / pagingPagesz ≤ count) (by
      unfold FramesFit
      rw [if_neg hsmall])

theorem framesFit_iff (mp : MemphyStruct) {maxSize : Addr} (hsize : maxSize.toNat < 2 ^ 31)
    (randomflg : Int) (garbage : ListEnd) {count : Nat} :
    (∀ fpn ∈ (initMemphy mp maxSize randomflg garbage).freeFpList.nodes, fpn.toNat < count) ↔
      FramesFit count mp maxSize := by
  rw [FrameUse.nodes_initMemphy mp hsize]
  unfold FramesFit
  split
  next => rfl
  next hlarge =>
    constructor
    · intro hall
      by_contra hmany
      have hcount : (BitVec.ofNat 64 count).toNat = count := by
        rw [BitVec.toNat_ofNat]
        unfold pagingPagesz at hmany
        omega
      have hmem : BitVec.ofNat 64 count ∈ framesOf maxSize := by
        apply FrameUse.mem_framesOf.mpr
        omega
      have hlt := hall _ hmem
      omega
    · intro hle fpn hmem
      exact Nat.lt_of_lt_of_le (FrameUse.mem_framesOf.mp hmem) hle

/-- The frames of RAM and swap of any configured sizes are encoded exactly when RAM has at
most `2 ^ 13` of them and swap at most `2 ^ 21`. -/
theorem encodesFrames_iff_framesFit (mram mswp : MemphyStruct) {ramSize swapSize : Addr}
    (hram : 0 < ramSize.toNat ∧ ramSize.toNat < 2 ^ 31)
    (hswap : 0 < swapSize.toNat ∧ swapSize.toNat < 2 ^ 31) (randomflg swptyp : Int)
    (ramGarbage swapGarbage : ListEnd) :
    (EncodesRam (initMemphy mram ramSize randomflg ramGarbage) ↔
        FramesFit (2 ^ 13) mram ramSize) ∧
      (EncodesSwap swptyp (initMemphy mswp swapSize randomflg swapGarbage) ↔
        FramesFit (2 ^ 21) mswp swapSize) := by
  rw [encodesRam_iff, encodesSwap_iff]
  exact ⟨framesFit_iff mram hram.2 randomflg ramGarbage,
    framesFit_iff mswp hswap.2 randomflg swapGarbage⟩

/-- The sizes of the shipped configurations. -/
theorem encodesFrames_iff_framesFit_shipped :
    (EncodesRam (initMemphy ⟨[], 0, true, 0, ⟨[], .null⟩⟩ 1048576 1 .null) ↔
        FramesFit (2 ^ 13) ⟨[], 0, true, 0, ⟨[], .null⟩⟩ 1048576) ∧
      (EncodesSwap 0 (initMemphy ⟨[], 0, true, 0, ⟨[], .null⟩⟩ 16777216 1 .null) ↔
        FramesFit (2 ^ 21) ⟨[], 0, true, 0, ⟨[], .null⟩⟩ 16777216) :=
  encodesFrames_iff_framesFit _ _ (by decide) (by decide) 1 0 .null .null

/-- A RAM of one frame more than the field has values: its last frame is encoded as frame 0. -/
theorem not_encodesRam_oneMore :
    (0x200100 : Addr).toNat < 2 ^ 31 ∧
      ¬ EncodesRam (initMemphy ⟨[], 0, true, 0, ⟨[], .null⟩⟩ 0x200100 1 .null) := by
  refine ⟨by decide, ?_⟩
  rw [encodesRam_iff, framesFit_iff _ (by decide)]
  decide

/-- Devices of the declared sizes have as many frames as the fields have values. -/
theorem framesFit_declared (mp : MemphyStruct) :
    FramesFit (2 ^ 13) mp (pagingMemramsz.setWidth 64) ∧
      FramesFit (2 ^ 21) mp (pagingMemswpsz.setWidth 64) := by
  unfold FramesFit
  rw [if_neg (by decide), if_neg (by decide)]
  decide

end SimpleOs
