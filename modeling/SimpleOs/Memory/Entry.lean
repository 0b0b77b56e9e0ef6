import SimpleOs.Memory.PageTable

/-! # What a page table entry says

A present entry that is not marked as swapped names a RAM frame, and one marked as swapped
names a slot of the swap device. `pte_set_swap` sets the present bit too, so the mark
decides. The two numbers share bits of the entry.
-/

namespace SimpleOs

/-- `pte & PAGING_PTE_SWAPPED_MASK` -/
def pteSwapped (pte : Word32) : Bool := pte &&& pagingPteSwappedMask != 0

/-- `PAGING_SWP(pte)` -/
def pagingSwp (pte : Word32) : Word32 := getval pte pagingPteSwpoffMask pagingPteSwpoffLobit

/-- The RAM frame that the entry names. -/
def pteFrame (pte : Word32) : Option Nat :=
  if pagingPagePresent pte ∧ ¬ pteSwapped pte then some (pagingFpn pte).toNat else none

/-- The swap slot that the entry names. -/
def pteSlot (pte : Word32) : Option Nat :=
  if pteSwapped pte then some (pagingSwp pte).toNat else none

/-! ## Single bits -/

theorem and_bit_ne_zero (pte : Word32) {nr : Nat} (hnr : nr < 32) :
    (pte &&& bit nr != 0) = pte.getLsbD nr := by
  have hbit : ∀ i, (pte &&& bit nr).getLsbD i = (pte.getLsbD i && decide (i = nr)) := by
    intro i
    unfold bit
    rw [BitVec.getLsbD_and, BitVec.getLsbD_shiftLeft, BitVec.getLsbD_one, Bool.eq_iff_iff]
    simp only [Bool.and_eq_true, Bool.not_eq_true', decide_eq_true_eq, decide_eq_false_iff_not]
    have hlt : pte.getLsbD i = true → i < 32 := BitVec.lt_of_getLsbD
    refine and_congr_right fun hset => ?_
    have hi := hlt hset
    omega
  rw [Bool.eq_iff_iff, bne_iff_ne]
  constructor
  · intro hne
    by_contra hclear
    refine hne (BitVec.eq_of_getLsbD_eq fun i _ => ?_)
    rw [hbit]
    by_cases hi : i = nr
    · subst hi
      simpa using hclear
    · simp [hi]
  · intro hset hzero
    have hself := hbit nr
    rw [hzero, hset] at hself
    simp at hself

theorem pagingPagePresent_eq (pte : Word32) : pagingPagePresent pte = pte.getLsbD 31 :=
  and_bit_ne_zero pte (by decide)

theorem pteSwapped_eq (pte : Word32) : pteSwapped pte = pte.getLsbD 30 :=
  and_bit_ne_zero pte (by decide)

/-! ## The writers -/

/-- A stored field holds the bits of its value. -/
theorem getLsbD_setval_field (v value : Addr) {count lobit index : Nat} (hindex : index < count)
    (hfit : lobit + count ≤ 32) :
    (setval v value (genmask (lobit + count - 1) lobit) lobit).getLsbD (index + lobit) =
      value.getLsbD index := by
  have hmask : (genmask (lobit + count - 1) lobit).getLsbD (index + lobit) = true := by
    rw [getLsbD_genmask (by omega)]
    simp only [Bool.and_eq_true, decide_eq_true_eq]
    omega
  have hwide : index + lobit < 64 := by omega
  have hnarrow : index + lobit < 32 := by omega
  have habove : ¬ index + lobit < lobit := by omega
  unfold setval clrbit
  simp only [BitVec.getLsbD_or, BitVec.getLsbD_and, BitVec.getLsbD_setWidth, BitVec.getLsbD_not,
    BitVec.getLsbD_shiftLeft, hmask, hwide, hnarrow, habove, decide_true, decide_false,
    Bool.not_true, Bool.not_false, Bool.and_false, Bool.false_or, Bool.and_true, Bool.true_and,
    Nat.add_sub_cancel]

/-- A field reads back as what was stored in it, up to its width. -/
theorem getval_setval (v value : Addr) (count lobit : Nat) (hcount : 0 < count)
    (hfit : lobit + count ≤ 32) :
    (getval ((setval v value (genmask (lobit + count - 1) lobit) lobit).setWidth 32)
        (genmask (lobit + count - 1) lobit) lobit).toNat = value.toNat % 2 ^ count := by
  rw [getval_toNat _ count lobit hcount hfit]
  apply Nat.eq_of_testBit_eq
  intro i
  rw [Nat.testBit_mod_two_pow, Nat.testBit_mod_two_pow, Nat.testBit_div_two_pow,
    BitVec.testBit_toNat, BitVec.testBit_toNat, BitVec.getLsbD_setWidth]
  by_cases hi : i < count
  · have hnarrow : i + lobit < 32 := by omega
    rw [getLsbD_setval_field v value hi hfit]
    simp only [hi, hnarrow, decide_true, Bool.true_and]
  · simp only [hi, decide_false, Bool.false_and]

theorem getLsbD_swapped_swapEntry (swptyp : Int) (swpoff pte : Addr) :
    (swapEntry swptyp swpoff pte).getLsbD 30 = true := by
  unfold swapEntry
  rw [getLsbD_setval_of_lt (by decide) (by decide), getLsbD_setval_of_lt (by decide) (by decide)]
  unfold setbit
  simp only [BitVec.getLsbD_or, BitVec.getLsbD_setWidth]
  simp [pagingPteSwappedMask, bit]

theorem getLsbD_swapped_fpnEntry (fpn pte : Addr) : (fpnEntry fpn pte).getLsbD 30 = false := by
  unfold fpnEntry
  rw [getLsbD_setval_of_lt (by decide) (by decide)]
  unfold clrbit setbit
  simp only [BitVec.getLsbD_and, BitVec.getLsbD_or, BitVec.getLsbD_setWidth]
  simp [pagingPteSwappedMask, bit]

/-- An entry that `pte_set_swap` wrote counts as present. -/
theorem pagingPagePresent_swapEntry (swptyp : Int) (swpoff pte : Addr) :
    pagingPagePresent ((swapEntry swptyp swpoff pte).setWidth 32) = true := by
  rw [pagingPagePresent_eq, BitVec.getLsbD_setWidth, getLsbD_present_swapEntry]
  rfl

theorem pteSwapped_swapEntry (swptyp : Int) (swpoff pte : Addr) :
    pteSwapped ((swapEntry swptyp swpoff pte).setWidth 32) = true := by
  rw [pteSwapped_eq, BitVec.getLsbD_setWidth, getLsbD_swapped_swapEntry]
  rfl

theorem pagingPagePresent_fpnEntry (fpn pte : Addr) :
    pagingPagePresent ((fpnEntry fpn pte).setWidth 32) = true := by
  rw [pagingPagePresent_eq, BitVec.getLsbD_setWidth, getLsbD_present_fpnEntry]
  rfl

theorem pteSwapped_fpnEntry (fpn pte : Addr) :
    pteSwapped ((fpnEntry fpn pte).setWidth 32) = false := by
  rw [pteSwapped_eq, BitVec.getLsbD_setWidth, getLsbD_swapped_fpnEntry]
  rfl

/-- The writers' numbers read back from their fields. -/
theorem pagingFpn_fpnEntry (fpn pte : Addr) :
    (pagingFpn ((fpnEntry fpn pte).setWidth 32)).toNat = fpn.toNat % 2 ^ 13 :=
  getval_setval _ fpn 13 0 (by decide) (by decide)

theorem pagingSwp_swapEntry (swptyp : Int) (swpoff pte : Addr) :
    (pagingSwp ((swapEntry swptyp swpoff pte).setWidth 32)).toNat = swpoff.toNat % 2 ^ 21 :=
  getval_setval _ swpoff 21 5 (by decide) (by decide)

/-- The frame goes into the low bits of the entry. -/
theorem getLsbD_fpnEntry_of_lt {fpn prior : Addr} {index : Nat} (hindex : index < 13) :
    (fpnEntry fpn prior).getLsbD index = fpn.getLsbD index := by
  have hmask : pagingPteFpnMask = genmask (0 + 13 - 1) 0 := rfl
  have hfit : 0 + 13 ≤ 32 := by decide
  unfold fpnEntry pagingPteFpnLobit
  rw [hmask]
  exact getLsbD_setval_field _ fpn hindex hfit

/-- Between the frame and the two marks `pte_set_fpn` keeps what the entry was before. -/
theorem getLsbD_fpnEntry_of_ge {fpn prior : Addr} {index : Nat} (hlow : 13 ≤ index)
    (hhigh : index < 30) : (fpnEntry fpn prior).getLsbD index = prior.getLsbD index := by
  have hfield : pagingPteFpnMask.getLsbD index = false :=
    getLsbD_genmask_of_gt (by decide) (by omega)
  have hswapped : (bit 30).getLsbD index = false := getLsbD_bit_of_lt hhigh
  have hpresent : (bit 31).getLsbD index = false := getLsbD_bit_of_lt (by omega)
  have hwide : index < 64 := by omega
  have hnarrow : index < 32 := by omega
  unfold fpnEntry
  rw [getLsbD_setval_of_lt (by omega) hfield]
  unfold clrbit setbit pagingPteSwappedMask pagingPtePresentMask
  simp only [BitVec.getLsbD_and, BitVec.getLsbD_or, BitVec.getLsbD_setWidth, BitVec.getLsbD_not,
    hswapped, hpresent, hwide, hnarrow, decide_true, Bool.not_false, Bool.and_true,
    Bool.and_false, Bool.or_false]

/-- The swap field of an entry that names a frame is made of the upper bits of the frame and
of what the entry was before. -/
theorem pagingSwp_fpnEntry (fpn prior : Addr) :
    (pagingSwp ((fpnEntry fpn prior).setWidth 32)).toNat =
      2 ^ 8 * (prior.toNat / 2 ^ 13 % 2 ^ 13) + fpn.toNat % 2 ^ 13 / 2 ^ 5 := by
  have hfield : (pagingSwp ((fpnEntry fpn prior).setWidth 32)).toNat =
      ((fpnEntry fpn prior).setWidth 32).toNat / 2 ^ 5 % 2 ^ 21 :=
    getval_toNat _ 21 5 (by decide) (by decide)
  have hlow : fpn.toNat % 2 ^ 13 / 2 ^ 5 < 2 ^ 8 := by omega
  rw [hfield]
  apply Nat.eq_of_testBit_eq
  intro index
  rw [Nat.testBit_two_pow_mul_add _ hlow]
  simp only [Nat.testBit_mod_two_pow, Nat.testBit_div_two_pow, BitVec.testBit_toNat,
    BitVec.getLsbD_setWidth]
  by_cases hfrom : index < 8
  · have hframe : index + 5 < 13 := by omega
    have htotal : index < 21 := by omega
    have hword : index + 5 < 32 := by omega
    rw [getLsbD_fpnEntry_of_lt hframe]
    simp only [hfrom, hframe, htotal, hword, decide_true, Bool.true_and, if_true]
  · by_cases hto : index < 21
    · have hword : index + 5 < 32 := by omega
      have hrest : index - 8 < 13 := by omega
      have hsame : index - 8 + 13 = index + 5 := by omega
      rw [getLsbD_fpnEntry_of_ge (by omega) (by omega)]
      simp only [hfrom, hto, hword, hrest, hsame, decide_true, Bool.true_and, if_false]
    · have hrest : ¬ index - 8 < 13 := by omega
      simp only [hfrom, hto, hrest, decide_false, Bool.false_and, if_false]

@[simp] theorem pteFrame_swapEntry (swptyp : Int) (swpoff pte : Addr) :
    pteFrame ((swapEntry swptyp swpoff pte).setWidth 32) = none := by
  unfold pteFrame
  simp [pteSwapped_swapEntry]

@[simp] theorem pteSlot_swapEntry (swptyp : Int) (swpoff pte : Addr) :
    pteSlot ((swapEntry swptyp swpoff pte).setWidth 32) = some (swpoff.toNat % 2 ^ 21) := by
  unfold pteSlot
  rw [if_pos (pteSwapped_swapEntry swptyp swpoff pte)]
  exact congrArg some (pagingSwp_swapEntry swptyp swpoff pte)

@[simp] theorem pteFrame_fpnEntry (fpn pte : Addr) :
    pteFrame ((fpnEntry fpn pte).setWidth 32) = some (fpn.toNat % 2 ^ 13) := by
  unfold pteFrame
  rw [if_pos ⟨pagingPagePresent_fpnEntry fpn pte, by simp [pteSwapped_fpnEntry]⟩]
  exact congrArg some (pagingFpn_fpnEntry fpn pte)

@[simp] theorem pteSlot_fpnEntry (fpn pte : Addr) :
    pteSlot ((fpnEntry fpn pte).setWidth 32) = none := by
  unfold pteSlot
  simp [pteSwapped_fpnEntry]

/-- An entry never names a frame and a slot at once. -/
theorem pteSlot_of_pteFrame {pte : Word32} {frame : Nat} (hframe : pteFrame pte = some frame) :
    pteSlot pte = none := by
  unfold pteFrame at hframe
  split at hframe
  next h =>
    unfold pteSlot
    rw [if_neg h.2]
  next => cases hframe

/-! ## Pages -/

/-- The page numbers of the 57-bit address space. -/
abbrev PageNumber : Type := { pgn : Addr // pgn.toNat < 2 ^ 45 }

/-- The page whose entry a walk reaches. The upper bits of a page number are shifted out. -/
def pageOf (pgn : Addr) : PageNumber :=
  ⟨BitVec.ofNat 64 (pgn.toNat % 2 ^ 45), by
    rw [BitVec.toNat_ofNat]
    exact Nat.lt_of_le_of_lt (Nat.mod_le _ _) (Nat.mod_lt _ (by decide))⟩

theorem pageOf_toNat (pgn : Addr) : (pageOf pgn).1.toNat = pgn.toNat % 2 ^ 45 := by
  unfold pageOf
  rw [BitVec.toNat_ofNat, Nat.mod_eq_of_lt]
  exact (Nat.mod_lt _ (by decide)).trans (by decide)

theorem pageOf_of_lt {pgn : Addr} (hpgn : pgn.toNat < 2 ^ 45) : (pageOf pgn).1 = pgn := by
  apply BitVec.eq_of_toNat_eq
  rw [pageOf_toNat, Nat.mod_eq_of_lt hpgn]

theorem getPdFromPagenum_pageOf (pgn : Addr) :
    getPdFromPagenum (pageOf pgn).1 = getPdFromPagenum pgn := by
  have hfield : ∀ (lobit : Nat) (hfit : lobit + 9 ≤ 64), lobit ≤ 48 →
      pdIndex ((pageOf pgn).1 <<< paging64AddrPtShift) lobit hfit =
        pdIndex (pgn <<< paging64AddrPtShift) lobit hfit := by
    intro lobit hfit hlobit
    apply Subtype.ext
    apply BitVec.eq_of_toNat_eq
    rw [pdIndex_toNat, pdIndex_toNat, BitVec.toNat_shiftLeft, BitVec.toNat_shiftLeft,
      Nat.shiftLeft_eq, Nat.shiftLeft_eq, pageOf_toNat]
    apply Nat.eq_of_testBit_eq
    intro i
    simp only [Nat.testBit_mod_two_pow, Nat.testBit_div_two_pow, Nat.testBit_mul_two_pow,
      paging64AddrPtShift]
    by_cases hi : i < 9
    · have hbelow : i + lobit - 12 < 45 := by omega
      simp [hbelow]
    · simp [hi]
  unfold getPdFromPagenum getPdFromAddress
  simp only [hfield 48 (by decide) (by decide), hfield 39 (by decide) (by decide),
    hfield 30 (by decide) (by decide), hfield 21 (by decide) (by decide),
    hfield 12 (by decide) (by decide)]

namespace MmStruct

/-- The entry that the tables hold for a page, as the reader returns it. -/
def pte (mm : MmStruct) (pgn : Addr) : Word32 := (mm.leaf pgn).setWidth 32

/-- The RAM frame that the entry of a page names. -/
def frameOf (mm : MmStruct) (page : PageNumber) : Option Nat := pteFrame (mm.pte page.1)

/-- The swap slot that the entry of a page names. -/
def slotOf (mm : MmStruct) (page : PageNumber) : Option Nat := pteSlot (mm.pte page.1)

variable {mm next : MmStruct} {pgn : Addr} {change : Addr → Addr}

theorem pte_congr (hleaf : next.leaf = mm.leaf) (pgn : Addr) : next.pte pgn = mm.pte pgn := by
  unfold pte
  rw [hleaf]

theorem frameOf_congr (hleaf : next.leaf = mm.leaf) : next.frameOf = mm.frameOf := by
  funext page
  exact congrArg pteFrame (pte_congr hleaf page.1)

theorem slotOf_congr (hleaf : next.leaf = mm.leaf) : next.slotOf = mm.slotOf := by
  funext page
  exact congrArg pteSlot (pte_congr hleaf page.1)

theorem leaf_pageOf (mm : MmStruct) (pgn : Addr) : mm.leaf (pageOf pgn).1 = mm.leaf pgn := by
  unfold leaf
  rw [getPdFromPagenum_pageOf]

theorem frameOf_pageOf (mm : MmStruct) (pgn : Addr) :
    mm.frameOf (pageOf pgn) = pteFrame (mm.pte pgn) := by
  unfold frameOf pte
  rw [leaf_pageOf]

theorem slotOf_pageOf (mm : MmStruct) (pgn : Addr) :
    mm.slotOf (pageOf pgn) = pteSlot (mm.pte pgn) := by
  unfold slotOf pte
  rw [leaf_pageOf]

/-- A writer leaves the entries of other pages alone. -/
theorem leaf_updatePte_of_pageOf_ne (hupdate : mm.updatePte pgn change = .ok next) {other : Addr}
    (hne : pageOf other ≠ pageOf pgn) : next.leaf other = mm.leaf other := by
  obtain ⟨pgd, hpgd, rfl⟩ := updatePte_eq_ok hupdate
  unfold leaf
  simp only [hpgd]
  apply Radix.get_modify_of_ne
  intro hpath
  rw [← getPdFromPagenum_pageOf other, ← getPdFromPagenum_pageOf pgn] at hpath
  exact hne (Subtype.ext (getPdFromPagenum_inj (pageOf other).2 (pageOf pgn).2 hpath))

/-- A writer changes the entry of one page. -/
theorem pte_updatePte (hupdate : mm.updatePte pgn change = .ok next) (page : PageNumber) :
    next.pte page.1 =
      if page = pageOf pgn then (change (mm.leaf pgn)).setWidth 32 else mm.pte page.1 := by
  have hself : pageOf page.1 = page := Subtype.ext (pageOf_of_lt page.2)
  unfold pte
  split
  next hpage => rw [hpage, leaf_pageOf, leaf_updatePte_self hupdate]
  next hpage =>
    rw [← hself] at hpage
    rw [leaf_updatePte_of_pageOf_ne hupdate hpage]

theorem frameOf_updatePte (hupdate : mm.updatePte pgn change = .ok next) :
    next.frameOf = Function.update mm.frameOf (pageOf pgn)
      (pteFrame ((change (mm.leaf pgn)).setWidth 32)) := by
  funext page
  rw [Function.update_apply]
  unfold frameOf
  rw [pte_updatePte hupdate, apply_ite pteFrame]

theorem slotOf_updatePte (hupdate : mm.updatePte pgn change = .ok next) :
    next.slotOf = Function.update mm.slotOf (pageOf pgn)
      (pteSlot ((change (mm.leaf pgn)).setWidth 32)) := by
  funext page
  rw [Function.update_apply]
  unfold slotOf
  rw [pte_updatePte hupdate, apply_ite pteSlot]

end MmStruct

/-! ## The reader -/

namespace MmStruct

/-- With all five directories, which `pte_get_entry` asks for. -/
def HasDirectories (mm : MmStruct) : Prop :=
  mm.pgd.isSome ∧ mm.p4d.isSome ∧ mm.pud.isSome ∧ mm.pmd.isSome ∧ mm.pt.isSome

instance (mm : MmStruct) : Decidable mm.HasDirectories := by
  unfold HasDirectories
  infer_instance

/-- After walks that changed no entry. -/
structure Walked (mm walked : MmStruct) : Prop where
  directories : walked.HasDirectories
  leaf : walked.leaf = mm.leaf
  fifoPgn : walked.fifoPgn = mm.fifoPgn

variable {mm next walked : MmStruct}

theorem Walked.trans (hwalked : mm.Walked walked) (hagain : walked.Walked next) :
    mm.Walked next where
  directories := hagain.directories
  leaf := hagain.leaf.trans hwalked.leaf
  fifoPgn := hagain.fifoPgn.trans hwalked.fifoPgn

theorem Walked.pte (hwalked : mm.Walked walked) (pgn : Addr) : walked.pte pgn = mm.pte pgn :=
  pte_congr hwalked.leaf pgn

/-- The entry that `pte_get_entry` returns: 0 unless all directory pointers are set. -/
def entry (mm : MmStruct) (pgn : Addr) : Word32 := if mm.HasDirectories then mm.pte pgn else 0

/-- After walks that changed no entry, whatever directories there are. -/
structure Touched (mm walked : MmStruct) : Prop where
  directories : walked.HasDirectories ↔ mm.HasDirectories
  leaf : walked.leaf = mm.leaf
  mmap : walked.mmap = mm.mmap
  pgd : walked.pgd.isSome = mm.pgd.isSome
  fifoPgn : walked.fifoPgn = mm.fifoPgn

theorem Touched.entry (htouched : mm.Touched walked) (pgn : Addr) :
    walked.entry pgn = mm.entry pgn := by
  unfold MmStruct.entry
  simp only [htouched.directories, pte_congr htouched.leaf]

/-- What the reader returns, and what its walk leaves alone. -/
theorem pteGetEntry_touched (mm : MmStruct) (pgn : Addr) :
    ∃ walked, mm.pteGetEntry pgn = (mm.entry pgn, walked) ∧ mm.Touched walked := by
  unfold pteGetEntry
  split
  next pgd p4d pud pmd pt hpgd hp4d hpud hpmd hpt =>
    have hdirectories : mm.HasDirectories := by
      simp only [HasDirectories, hpgd, hp4d, hpud, hpmd, hpt, Option.isSome_some, and_self]
    refine ⟨{ mm with pgd := some (Radix.modify 0 id 4 pgd (getPdFromPagenum pgn)) }, ?_,
      ?_, ?_, rfl, ?_, rfl⟩
    · unfold MmStruct.entry MmStruct.pte leaf
      rw [if_pos hdirectories, hpgd]
      simp only [Radix.get_modify_id]
    · simp only [HasDirectories, hpgd, Option.isSome_some]
    · funext other
      unfold leaf
      simp only [hpgd, Radix.get_modify_id]
    · rw [hpgd]
      rfl
  next hmissing =>
    refine ⟨mm, ?_, ⟨Iff.rfl, rfl, rfl, rfl, rfl⟩⟩
    have hdirectories : ¬ mm.HasDirectories := by
      rintro ⟨hpgd, hp4d, hpud, hpmd, hpt⟩
      obtain ⟨pgd, hpgd⟩ := Option.isSome_iff_exists.mp hpgd
      obtain ⟨p4d, hp4d⟩ := Option.isSome_iff_exists.mp hp4d
      obtain ⟨pud, hpud⟩ := Option.isSome_iff_exists.mp hpud
      obtain ⟨pmd, hpmd⟩ := Option.isSome_iff_exists.mp hpmd
      obtain ⟨pt, hpt⟩ := Option.isSome_iff_exists.mp hpt
      exact hmissing pgd p4d pud pmd pt hpgd hp4d hpud hpmd hpt
    unfold MmStruct.entry
    rw [if_neg hdirectories]

/-- The reader returns the entry of the page, and changes none. -/
theorem HasDirectories.pteGetEntry (hdirectories : mm.HasDirectories) (pgn : Addr) :
    ∃ walked, mm.pteGetEntry pgn = (mm.pte pgn, walked) ∧ mm.Walked walked := by
  obtain ⟨walked, hentry, htouched⟩ := mm.pteGetEntry_touched pgn
  refine ⟨walked, ?_, htouched.directories.mpr hdirectories, htouched.leaf, htouched.fifoPgn⟩
  rw [hentry, MmStruct.entry, if_pos hdirectories]

theorem HasDirectories.updatePte (hdirectories : mm.HasDirectories) {pgn : Addr}
    {change : Addr → Addr} (hupdate : mm.updatePte pgn change = .ok next) :
    next.HasDirectories ∧ next.fifoPgn = mm.fifoPgn := by
  obtain ⟨pgd, -, rfl⟩ := updatePte_eq_ok hupdate
  exact ⟨⟨rfl, hdirectories.2⟩, rfl⟩

end MmStruct

end SimpleOs
