import SimpleOs.Memory.Mm

/-! # The five-level page table

The walks of `mm64.c`. The three writers and the reader split the page number in the
same way and allocate the missing tables on their path; the reader runs only when all
five directory pointers are non-`NULL`.
-/

namespace SimpleOs

theorem addrField_nine (addr : Addr) {lobit : Nat} (hfit : lobit + 9 ≤ 64) :
    (addrField addr (lobit + 8) lobit).toNat = addr.toNat / 2 ^ lobit % 2 ^ 9 := by
  rw [show lobit + 8 = lobit + 9 - 1 from rfl]
  exact addrField_toNat addr (by decide) hfit

/-- The nine-bit field of an address that indexes a table. -/
def pdIndex (addr : Addr) (lobit : Nat) (hfit : lobit + 9 ≤ 64) : TableIndex :=
  ⟨addrField addr (lobit + 8) lobit, by
    rw [addrField_nine addr hfit]
    exact Nat.mod_lt _ (by decide)⟩

/-- `get_pd_from_address` -/
def getPdFromAddress (addr : Addr) : Radix.Path TableIndex 4 :=
  (pdIndex addr 48 (by decide), pdIndex addr 39 (by decide), pdIndex addr 30 (by decide),
    pdIndex addr 21 (by decide), pdIndex addr 12 (by decide))

/-- `get_pd_from_pagenum` -/
def getPdFromPagenum (pgn : Addr) : Radix.Path TableIndex 4 :=
  getPdFromAddress (pgn <<< paging64AddrPtShift)

/-- What `pte_set_swap` makes of an entry. The swap type is an `int`, of which the mask
keeps the low bits. -/
def swapEntry (swptyp : Int) (swpoff pte : Addr) : Addr :=
  let pte := setbit pte pagingPtePresentMask
  let pte := setbit pte pagingPteSwappedMask
  let pte := setval pte (ofCInt swptyp) pagingPteSwptypMask pagingPteSwptypLobit
  setval pte swpoff pagingPteSwpoffMask pagingPteSwpoffLobit

/-- What `pte_set_fpn` makes of an entry. -/
def fpnEntry (fpn pte : Addr) : Addr :=
  let pte := setbit pte pagingPtePresentMask
  let pte := clrbit pte pagingPteSwappedMask
  setval pte fpn pagingPteFpnMask pagingPteFpnLobit

namespace MmStruct

/-- The walk of a writer to the leaf of a page, which it changes in place. -/
def updatePte (mm : MmStruct) (pgn : Addr) (change : Addr → Addr) : Except Fault MmStruct :=
  match mm.pgd with
  | none => .error .nullDeref
  | some pgd => .ok { mm with pgd := some (Radix.modify 0 change 4 pgd (getPdFromPagenum pgn)) }

/-- `pte_set_swap` -/
def pteSetSwap (mm : MmStruct) (pgn : Addr) (swptyp : Int) (swpoff : Addr) :
    Except Fault MmStruct :=
  mm.updatePte pgn (swapEntry swptyp swpoff)

/-- `pte_set_fpn` -/
def pteSetFpn (mm : MmStruct) (pgn fpn : Addr) : Except Fault MmStruct :=
  mm.updatePte pgn (fpnEntry fpn)

/-- `pte_set_entry` -/
def pteSetEntry (mm : MmStruct) (pgn : Addr) (pteVal : Word32) : Except Fault MmStruct :=
  mm.updatePte pgn fun _ => pteVal.setWidth 64

/-- `pte_get_entry`. With a `NULL` directory pointer the entry is 0. -/
def pteGetEntry (mm : MmStruct) (pgn : Addr) : Word32 × MmStruct :=
  match mm.pgd, mm.p4d, mm.pud, mm.pmd, mm.pt with
  | some pgd, some _, some _, some _, some _ =>
      let pgd := Radix.modify 0 id 4 pgd (getPdFromPagenum pgn)
      ((Radix.get 0 4 pgd (getPdFromPagenum pgn)).setWidth 32, { mm with pgd := some pgd })
  | _, _, _, _, _ => (0, mm)

/-- The entry that the tables hold for a page, 0 below a missing table. -/
def leaf (mm : MmStruct) (pgn : Addr) : Addr :=
  match mm.pgd with
  | none => 0
  | some pgd => Radix.get 0 4 pgd (getPdFromPagenum pgn)

end MmStruct

/-! ## The path of a page -/

theorem pdIndex_toNat (addr : Addr) {lobit : Nat} (hfit : lobit + 9 ≤ 64) :
    (pdIndex addr lobit hfit).1.toNat = addr.toNat / 2 ^ lobit % 2 ^ 9 :=
  addrField_nine addr hfit

/-- The field of a page number that selects an entry of a table. -/
theorem pdIndex_shift {pgn : Addr} (hpgn : pgn.toNat < 2 ^ 45) {lobit : Nat}
    (hfit : lobit + 9 ≤ 64) :
    (pdIndex (pgn <<< paging64AddrPtShift) lobit hfit).1.toNat =
      pgn.toNat * 2 ^ 12 / 2 ^ lobit % 2 ^ 9 := by
  have hshift : (pgn <<< paging64AddrPtShift).toNat = pgn.toNat * 2 ^ 12 := by
    rw [BitVec.toNat_shiftLeft, Nat.shiftLeft_eq]
    exact Nat.mod_eq_of_lt (by unfold paging64AddrPtShift; omega)
  rw [pdIndex_toNat, hshift]

/-- Two page numbers of the address space never share a leaf. -/
theorem getPdFromPagenum_inj {pgn other : Addr} (hpgn : pgn.toNat < 2 ^ 45)
    (hother : other.toNat < 2 ^ 45) (hsame : getPdFromPagenum pgn = getPdFromPagenum other) :
    pgn = other := by
  have hfield : ∀ (lobit : Nat) (hfit : lobit + 9 ≤ 64),
      pdIndex (pgn <<< paging64AddrPtShift) lobit hfit =
        pdIndex (other <<< paging64AddrPtShift) lobit hfit →
      pgn.toNat * 2 ^ 12 / 2 ^ lobit % 2 ^ 9 = other.toNat * 2 ^ 12 / 2 ^ lobit % 2 ^ 9 := by
    intro lobit hfit heq
    rw [← pdIndex_shift hpgn hfit, ← pdIndex_shift hother hfit, heq]
  -- the five fields are the digits of the page number to the base 512
  have h48 := hfield 48 (by decide) (congrArg (fun path => path.1) hsame)
  have h39 := hfield 39 (by decide) (congrArg (fun path => path.2.1) hsame)
  have h30 := hfield 30 (by decide) (congrArg (fun path => path.2.2.1) hsame)
  have h21 := hfield 21 (by decide) (congrArg (fun path => path.2.2.2.1) hsame)
  have h12 := hfield 12 (by decide) (congrArg (fun path => path.2.2.2.2) hsame)
  apply BitVec.eq_of_toNat_eq
  omega

/-! ## Writers and reader -/

namespace MmStruct

variable {mm next : MmStruct} {pgn : Addr} {change : Addr → Addr}

/-- A writer needs `pgd` and changes nothing else. -/
theorem updatePte_eq_ok (hupdate : mm.updatePte pgn change = .ok next) :
    ∃ pgd, mm.pgd = some pgd ∧ next =
      { mm with pgd := some (Radix.modify 0 change 4 pgd (getPdFromPagenum pgn)) } := by
  unfold updatePte at hupdate
  split at hupdate
  next => cases hupdate
  next pgd hpgd => exact ⟨pgd, hpgd, (Except.ok.inj hupdate).symm⟩

theorem exists_updatePte {pgd : PageDirectory} (hpgd : mm.pgd = some pgd) (pgn : Addr)
    (change : Addr → Addr) : ∃ next, mm.updatePte pgn change = .ok next := by
  unfold updatePte
  rw [hpgd]
  exact ⟨_, rfl⟩

theorem leaf_updatePte_self (hupdate : mm.updatePte pgn change = .ok next) :
    next.leaf pgn = change (mm.leaf pgn) := by
  obtain ⟨pgd, hpgd, rfl⟩ := updatePte_eq_ok hupdate
  simp only [leaf, hpgd]
  exact Radix.get_modify_self ..

theorem leaf_updatePte_of_ne {other : Addr} (hupdate : mm.updatePte pgn change = .ok next)
    (hpgn : pgn.toNat < 2 ^ 45) (hother : other.toNat < 2 ^ 45) (hne : other ≠ pgn) :
    next.leaf other = mm.leaf other := by
  obtain ⟨pgd, hpgd, rfl⟩ := updatePte_eq_ok hupdate
  simp only [leaf, hpgd]
  exact Radix.get_modify_of_ne _ _ _ _ fun heq => hne (getPdFromPagenum_inj hother hpgn heq)

/-- Without the table that `pt` should point to, no entry is ever read. -/
theorem pteGetEntry_of_pt (hpt : mm.pt = none) (pgn : Addr) : mm.pteGetEntry pgn = (0, mm) := by
  unfold pteGetEntry
  rw [hpt]
  split
  next heq => cases heq
  next => rfl

@[simp] theorem leaf_initMm (garbage : ListEnd) (pgn : Addr) : (initMm garbage).leaf pgn = 0 :=
  Radix.get_fresh 0 4 (getPdFromPagenum pgn)

end MmStruct

/-! ## Present entries -/

theorem getLsbD_setval_of_lt {v value : Addr} {mask : Word32} {offst index : Nat}
    (hindex : index < 32) (hmask : mask.getLsbD index = false) :
    (setval v value mask offst).getLsbD index = v.getLsbD index := by
  have hwide : index < 64 := by omega
  unfold setval clrbit
  simp only [BitVec.getLsbD_or, BitVec.getLsbD_and, BitVec.getLsbD_setWidth, BitVec.getLsbD_not,
    hmask, hindex, hwide, decide_true, Bool.not_false, Bool.and_true, Bool.and_false,
    Bool.or_false]

theorem getLsbD_present_fpnEntry (fpn pte : Addr) : (fpnEntry fpn pte).getLsbD 31 = true := by
  unfold fpnEntry
  rw [getLsbD_setval_of_lt (by decide) (by decide)]
  unfold clrbit setbit
  simp only [BitVec.getLsbD_and, BitVec.getLsbD_or, BitVec.getLsbD_setWidth]
  simp [pagingPteSwappedMask, pagingPtePresentMask, bit]

theorem getLsbD_present_swapEntry (swptyp : Int) (swpoff pte : Addr) :
    (swapEntry swptyp swpoff pte).getLsbD 31 = true := by
  unfold swapEntry
  rw [getLsbD_setval_of_lt (by decide) (by decide), getLsbD_setval_of_lt (by decide) (by decide)]
  unfold setbit
  simp only [BitVec.getLsbD_or, BitVec.getLsbD_setWidth]
  simp [pagingPtePresentMask, bit]

end SimpleOs
