import SimpleOs.Foundation.Holders
import SimpleOs.Kernel.GetPage

/-! # Giving memory back

`free_pcb_memph` puts the number in the entry of every listed page on a free list. It tells
swapped pages from others by their swap field, instead of by the bit that marks them. The
field shares bits with the frame, and the first slot has the number 0.
-/

namespace SimpleOs

variable {Proc : Type}

/-- `PAGING_SWPFPN_OFFSET` -/
def pagingSwpfpnOffset : Nat := 5

/-- `PAGING_PTE_SWP(pte)` -/
def pagingPteSwp (pte : Word32) : Word32 := getval pte pagingPteSwpoffMask pagingSwpfpnOffset

/-- A round of the loop of `free_pcb_memph`. -/
def freeNode (krnl : Krnl Proc) (pgn : Addr) : Krnl Proc :=
  let (pte, mm) := krnl.mm.pteGetEntry pgn
  let krnl := { krnl with mm := mm }
  if pagingPagePresent pte then
    if pagingPteSwp pte = 0 then
      { krnl with mram := krnl.mram.putFreefp ((pagingFpn pte).setWidth 64) }
    else { krnl with activeMswp := krnl.activeMswp.putFreefp ((pagingSwp pte).setWidth 64) }
  else krnl

/-- `free_pcb_memph` -/
def freePcbMemph (krnl : Krnl Proc) : Int × Krnl Proc :=
  let krnl := krnl.mm.fifoPgn.foldl freeNode krnl
  (0, { krnl with mm := { krnl.mm with fifoPgn := [] } })

/-! ## What the entries give back -/

/-- The number that goes to RAM for an entry. -/
def ramReturn (pte : Word32) : Option Addr :=
  if pagingPagePresent pte ∧ pagingPteSwp pte = 0 then some ((pagingFpn pte).setWidth 64)
  else none

/-- The number that goes to the swap device for an entry. -/
def swapReturn (pte : Word32) : Option Addr :=
  if pagingPagePresent pte ∧ pagingPteSwp pte ≠ 0 then some ((pagingSwp pte).setWidth 64)
  else none

/-- Several frames are put on the list, the last one first. -/
def MemphyStruct.putAll (mp : MemphyStruct) (frames : List Addr) : MemphyStruct :=
  { mp with freeFpList := { mp.freeFpList with nodes := frames.reverse ++ mp.freeFpList.nodes } }

namespace MemphyStruct

@[simp] theorem putAll_nil (mp : MemphyStruct) : mp.putAll [] = mp := rfl

theorem putAll_cons (mp : MemphyStruct) (fpn : Addr) (rest : List Addr) :
    mp.putAll (fpn :: rest) = (mp.putFreefp fpn).putAll rest := by
  unfold putAll putFreefp
  simp

end MemphyStruct

variable {krnl : Krnl Proc}

theorem pagingPteSwp_eq (pte : Word32) : pagingPteSwp pte = pagingSwp pte := rfl

/-- A round puts back what the entry gives. -/
theorem freeNode_eq (hdirectories : krnl.mm.HasDirectories) (pgn : Addr) :
    ∃ walked, krnl.mm.Walked walked ∧ freeNode krnl pgn = { krnl with
      mm := walked
      mram := krnl.mram.putAll (ramReturn (krnl.mm.pte pgn)).toList
      activeMswp := krnl.activeMswp.putAll (swapReturn (krnl.mm.pte pgn)).toList } := by
  obtain ⟨walked, hentry, hwalked⟩ := hdirectories.pteGetEntry pgn
  refine ⟨walked, hwalked, ?_⟩
  unfold freeNode ramReturn swapReturn
  simp only [hentry]
  by_cases hpresent : pagingPagePresent (krnl.mm.pte pgn) = true
  · by_cases hswp : pagingPteSwp (krnl.mm.pte pgn) = 0#32
    · simp [hpresent, hswp, MemphyStruct.putAll_cons]
    · simp [hpresent, hswp, MemphyStruct.putAll_cons]
  · simp [hpresent]

/-- The loop puts back what the entries of its pages give. -/
theorem foldl_freeNode_eq (pages : List Addr) (hdirectories : krnl.mm.HasDirectories) :
    ∃ walked, krnl.mm.Walked walked ∧ pages.foldl freeNode krnl = { krnl with
      mm := walked
      mram := krnl.mram.putAll (pages.filterMap fun pgn => ramReturn (krnl.mm.pte pgn))
      activeMswp :=
        krnl.activeMswp.putAll (pages.filterMap fun pgn => swapReturn (krnl.mm.pte pgn)) } := by
  induction pages generalizing krnl with
  | nil => exact ⟨krnl.mm, ⟨hdirectories, rfl, rfl⟩, rfl⟩
  | cons pgn rest ih =>
      obtain ⟨walked, hwalked, hnode⟩ := freeNode_eq hdirectories pgn
      have hdirs : (freeNode krnl pgn).mm.HasDirectories := by
        rw [hnode]
        exact hwalked.directories
      obtain ⟨again, hagain, hrest⟩ := ih hdirs
      rw [hnode] at hagain hrest
      refine ⟨again, hwalked.trans hagain, ?_⟩
      rw [List.foldl_cons, hnode, hrest]
      simp only [hwalked.pte, List.filterMap_cons]
      cases ramReturn (krnl.mm.pte pgn) <;> cases swapReturn (krnl.mm.pte pgn) <;>
        simp [MemphyStruct.putAll_cons]

/-! ## How entries were last set -/

/-- The last writer of an entry, with what the entry was before. -/
inductive LastSet where
  | setFpn (fpn prior : Addr)
  | setSwap (swptyp : Int) (swpoff prior : Addr)

namespace LastSet

/-- The entry that the writer left. -/
def entry : LastSet → Addr
  | setFpn fpn prior => fpnEntry fpn prior
  | setSwap swptyp swpoff prior => swapEntry swptyp swpoff prior

/-- The number fits its field. -/
def InRange : LastSet → Prop
  | setFpn fpn _ => fpn.toNat < 2 ^ 13
  | setSwap _ swpoff _ => swpoff.toNat < 2 ^ 21

/-- The frame of a page that is not swapped. -/
def frame : LastSet → Option Addr
  | setFpn fpn _ => some fpn
  | setSwap .. => none

/-- The swap offset of a swapped page. -/
def slot : LastSet → Option Addr
  | setFpn .. => none
  | setSwap _ swpoff _ => some swpoff

/-- The swap field is zero for a frame, and not for a slot. With a frame the field has its
upper bits, and bits 13 to 25 of what the entry was before. -/
def Unambiguous : LastSet → Prop
  | setFpn fpn prior => fpn.toNat < 32 ∧ prior.toNat / 2 ^ 13 % 2 ^ 13 = 0
  | setSwap _ swpoff _ => swpoff ≠ 0

variable {last : LastSet}

theorem present_entry (last : LastSet) :
    pagingPagePresent (last.entry.setWidth 32) = true := by
  cases last with
  | setFpn fpn prior => exact pagingPagePresent_fpnEntry fpn prior
  | setSwap swptyp swpoff prior => exact pagingPagePresent_swapEntry swptyp swpoff prior

theorem pagingPteSwp_eq_zero_iff (pte : Word32) :
    pagingPteSwp pte = 0 ↔ (pagingSwp pte).toNat = 0 := by
  rw [pagingPteSwp_eq, ← BitVec.toNat_inj]
  rfl

/-- A swap field that is not zero goes to the swap device, and else the frame to RAM. -/
theorem swapReturn_entry (last : LastSet) :
    swapReturn (last.entry.setWidth 32) =
      if (pagingSwp (last.entry.setWidth 32)).toNat = 0 then none
      else some ((pagingSwp (last.entry.setWidth 32)).setWidth 64) := by
  unfold swapReturn
  simp only [last.present_entry, ne_eq, pagingPteSwp_eq_zero_iff, true_and, ite_not]

theorem ramReturn_entry (last : LastSet) :
    ramReturn (last.entry.setWidth 32) =
      if (pagingSwp (last.entry.setWidth 32)).toNat = 0 then
        some ((pagingFpn (last.entry.setWidth 32)).setWidth 64)
      else none := by
  unfold ramReturn
  simp only [last.present_entry, pagingPteSwp_eq_zero_iff, true_and]

/-- A number in its field is the number that was put there. -/
theorem setWidth_pagingFpn {fpn prior : Addr} (hrange : (setFpn fpn prior).InRange) :
    (pagingFpn ((fpnEntry fpn prior).setWidth 32)).setWidth 64 = fpn := by
  apply BitVec.eq_of_toNat_eq
  rw [BitVec.toNat_setWidth, pagingFpn_fpnEntry, Nat.mod_eq_of_lt hrange]
  exact Nat.mod_eq_of_lt fpn.isLt

theorem toNat_pagingSwp {swptyp : Int} {swpoff prior : Addr}
    (hrange : (setSwap swptyp swpoff prior).InRange) :
    (pagingSwp ((swapEntry swptyp swpoff prior).setWidth 32)).toNat = swpoff.toNat := by
  rw [pagingSwp_swapEntry]
  exact Nat.mod_eq_of_lt hrange

theorem setWidth_pagingSwp {swptyp : Int} {swpoff prior : Addr}
    (hrange : (setSwap swptyp swpoff prior).InRange) :
    (pagingSwp ((swapEntry swptyp swpoff prior).setWidth 32)).setWidth 64 = swpoff := by
  apply BitVec.eq_of_toNat_eq
  rw [BitVec.toNat_setWidth, toNat_pagingSwp hrange]
  exact Nat.mod_eq_of_lt swpoff.isLt

/-- The swap field is zero for a frame exactly when it is unambiguous. -/
theorem toNat_pagingSwp_eq_zero_iff {fpn prior : Addr} (hrange : (setFpn fpn prior).InRange) :
    (pagingSwp ((fpnEntry fpn prior).setWidth 32)).toNat = 0 ↔
      (setFpn fpn prior).Unambiguous := by
  rw [pagingSwp_fpnEntry, Nat.mod_eq_of_lt hrange]
  unfold Unambiguous
  omega

/-- The slot comes back to the swap device, and nothing else for the page, exactly when the
entry is unambiguous. -/
theorem swapReturn_eq_slot_iff (hrange : last.InRange) :
    swapReturn (last.entry.setWidth 32) = last.slot ↔ last.Unambiguous := by
  rw [swapReturn_entry]
  cases last with
  | setFpn fpn prior =>
      rw [← toNat_pagingSwp_eq_zero_iff hrange]
      by_cases hzero : (pagingSwp ((fpnEntry fpn prior).setWidth 32)).toNat = 0
      · rw [entry, if_pos hzero]
        exact iff_of_true rfl hzero
      · rw [entry, if_neg hzero]
        exact iff_of_false nofun hzero
  | setSwap swptyp swpoff prior =>
      have hzero : swpoff.toNat = 0 ↔ swpoff = 0 := by
        rw [← BitVec.toNat_inj]
        rfl
      simp [entry, slot, Unambiguous, toNat_pagingSwp hrange, setWidth_pagingSwp hrange, hzero]

/-- A slot other than the first one comes back in any case. -/
theorem swapReturn_of_slot (hrange : last.InRange) {swpoff : Addr} (hslot : last.slot = some swpoff)
    (hswpoff : swpoff ≠ 0) : swapReturn (last.entry.setWidth 32) = some swpoff := by
  cases last with
  | setFpn fpn prior => cases hslot
  | setSwap swptyp found prior =>
      obtain rfl := Option.some.inj hslot
      exact (swapReturn_eq_slot_iff hrange).mpr hswpoff

theorem ramReturn_eq_frame (hrange : last.InRange) (hunambiguous : last.Unambiguous) :
    ramReturn (last.entry.setWidth 32) = last.frame := by
  rw [ramReturn_entry]
  cases last with
  | setFpn fpn prior =>
      rw [entry, if_pos ((toNat_pagingSwp_eq_zero_iff hrange).mpr hunambiguous),
        setWidth_pagingFpn hrange]
      rfl
  | setSwap swptyp swpoff prior =>
      have hswp : (pagingSwp ((swapEntry swptyp swpoff prior).setWidth 32)).toNat ≠ 0 := by
        rw [toNat_pagingSwp hrange]
        exact fun hzero => hunambiguous (BitVec.eq_of_toNat_eq hzero)
      rw [entry, if_neg hswp]
      rfl

end LastSet

/-- Zero is never given to the swap device. -/
theorem swapReturn_ne_zero (pte : Word32) : swapReturn pte ≠ some 0 := by
  unfold swapReturn
  split
  next hswp =>
    intro hzero
    have hwide := congrArg BitVec.toNat (Option.some.inj hzero)
    rw [BitVec.toNat_setWidth] at hwide
    have hlt := (pagingSwp pte).isLt
    apply hswp.2
    rw [LastSet.pagingPteSwp_eq_zero_iff]
    simp at hwide
    omega
  next => exact nofun

/-! ## The devices -/

/-- The frames of pages that are not swapped are back in RAM, the slots of the others on the
swap device, and no page is listed. -/
structure ReturnsMemory (krnl after : Krnl Proc) (last : Addr → LastSet) : Prop where
  frames : after.mram.freeFpList.nodes.Perm
    (krnl.mm.fifoPgn.filterMap (fun pgn => (last pgn).frame) ++ krnl.mram.freeFpList.nodes)
  slots : after.activeMswp.freeFpList.nodes.Perm
    (krnl.mm.fifoPgn.filterMap (fun pgn => (last pgn).slot) ++ krnl.activeMswp.freeFpList.nodes)
  fifoPgn : after.mm.fifoPgn = []

/-- All memory is returned exactly when no listed entry is ambiguous. -/
theorem freePcbMemph_returns_iff (krnl : Krnl Proc) (hdirectories : krnl.mm.HasDirectories)
    (last : Addr → LastSet)
    (hlast : ∀ pgn ∈ krnl.mm.fifoPgn,
      (last pgn).InRange ∧ krnl.mm.leaf pgn = (last pgn).entry) :
    ReturnsMemory krnl (freePcbMemph krnl).2 last ↔
      ∀ pgn ∈ krnl.mm.fifoPgn, (last pgn).Unambiguous := by
  obtain ⟨walked, hwalked, hloop⟩ := foldl_freeNode_eq krnl.mm.fifoPgn hdirectories
  have hpte : ∀ pgn ∈ krnl.mm.fifoPgn, krnl.mm.pte pgn = (last pgn).entry.setWidth 32 := by
    intro pgn hpgn
    unfold MmStruct.pte
    rw [(hlast pgn hpgn).2]
  have hslots : (krnl.mm.fifoPgn.filterMap fun pgn => swapReturn (krnl.mm.pte pgn)).Perm
      (krnl.mm.fifoPgn.filterMap fun pgn => (last pgn).slot) ↔
        ∀ pgn ∈ krnl.mm.fifoPgn, (last pgn).Unambiguous := by
    rw [Holders.perm_filterMap_iff 0 fun pgn _ => swapReturn_ne_zero (krnl.mm.pte pgn)]
    · refine forall₂_congr fun pgn hpgn => ?_
      rw [hpte pgn hpgn, LastSet.swapReturn_eq_slot_iff (hlast pgn hpgn).1]
    · intro pgn hpgn swpoff hslot hswpoff
      rw [hpte pgn hpgn]
      exact LastSet.swapReturn_of_slot (hlast pgn hpgn).1 hslot hswpoff
  unfold freePcbMemph
  rw [hloop]
  constructor
  · intro hreturns
    apply hslots.mp
    have hperm := hreturns.slots
    exact (List.reverse_perm _).symm.trans ((List.perm_append_right_iff _).mp hperm)
  · intro hunambiguous
    refine { frames := ?_, slots := ?_, fifoPgn := rfl }
    · apply List.Perm.append_right
      have hsame : (krnl.mm.fifoPgn.filterMap fun pgn => ramReturn (krnl.mm.pte pgn)) =
          krnl.mm.fifoPgn.filterMap fun pgn => (last pgn).frame := by
        apply List.filterMap_congr
        intro pgn hpgn
        rw [hpte pgn hpgn]
        exact LastSet.ramReturn_eq_frame (hlast pgn hpgn).1 (hunambiguous pgn hpgn)
      rw [hsame]
      exact List.reverse_perm _
    · apply List.Perm.append_right
      exact (List.reverse_perm _).trans (hslots.mpr hunambiguous)

/-- `sevens` with page 0 in frame 1 and page 3 in slot 5, which is not free. -/
def frameAndSlot : Krnl Unit :=
  { sevens with
    mm :=
      { SimpleOs.initMm .null with
        pgd := some (Radix.modify 0 (swapEntry 0 5) 4
          (Radix.modify 0 (fpnEntry 1) 4 (Radix.fresh 0 4) (getPdFromPagenum 0))
          (getPdFromPagenum 3))
        pt := some fun _ => 0
        fifoPgn := [3, 0] } }

def lastOfFrameAndSlot (pgn : Addr) : LastSet :=
  if pgn = 0 then .setFpn 1 0 else .setSwap 0 5 0

/-- The frame comes back to RAM and the slot to the swap device. -/
theorem freePcbMemph_returns_iff_frameAndSlot :
    ReturnsMemory frameAndSlot (freePcbMemph frameAndSlot).2 lastOfFrameAndSlot := by
  have hlisted : ∀ pgn ∈ frameAndSlot.mm.fifoPgn, pgn = 3 ∨ pgn = 0 := by
    intro pgn hpgn
    exact (List.mem_cons.mp hpgn).imp_right List.mem_singleton.mp
  have hslot : frameAndSlot.mm.leaf 3 = swapEntry 0 5 0 := by decide +kernel
  have hframe : frameAndSlot.mm.leaf 0 = fpnEntry 1 0 := by decide +kernel
  refine (freePcbMemph_returns_iff frameAndSlot (by decide) lastOfFrameAndSlot ?_).mpr ?_
  · intro pgn hpgn
    rcases hlisted pgn hpgn with rfl | rfl
    · exact ⟨show (5 : Addr).toNat < 2 ^ 21 by decide, hslot⟩
    · exact ⟨show (1 : Addr).toNat < 2 ^ 13 by decide, hframe⟩
  · intro pgn hpgn
    rcases hlisted pgn hpgn with rfl | rfl
    · exact show (5 : Addr) ≠ 0 by decide
    · exact ⟨by decide, rfl⟩

/-- `sevens` with page 0 in frame 32. -/
def highFrame : Krnl Unit :=
  { sevens with
    mm :=
      { SimpleOs.initMm .null with
        pgd := some (Radix.modify 0 (fpnEntry 32) 4 (Radix.fresh 0 4) (getPdFromPagenum 0))
        pt := some fun _ => 0
        fifoPgn := [0] } }

/-- Frame 32 does not come back, and slot 1 does. -/
theorem not_returnsMemory_highFrame :
    highFrame.mm.HasDirectories ∧ highFrame.mm.leaf 0 = (LastSet.setFpn 32 0).entry ∧
      (freePcbMemph highFrame).2.mram.freeFpList.nodes = [0] ∧
      (freePcbMemph highFrame).2.activeMswp.freeFpList.nodes = [1, 0] ∧
      ¬ ReturnsMemory highFrame (freePcbMemph highFrame).2 fun _ => .setFpn 32 0 := by
  have hleaf : highFrame.mm.leaf 0 = fpnEntry 32 0 := Radix.get_modify_self ..
  have hmram : (freePcbMemph highFrame).2.mram.freeFpList.nodes = [0] := by decide +kernel
  have hmswp : (freePcbMemph highFrame).2.activeMswp.freeFpList.nodes = [1, 0] := by
    decide +kernel
  refine ⟨by decide, hleaf, hmram, hmswp, fun hreturns => ?_⟩
  have hlength := hreturns.frames.length_eq
  rw [hmram] at hlength
  exact absurd hlength (by decide)

end SimpleOs
