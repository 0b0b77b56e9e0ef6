import Mathlib.Tactic.SplitIfs
import SimpleOs.Memory.PageTable

/-! # The six fields of an address

`get_pd_from_address` takes five table indices out of an address, and the offset mask of
`mm64.h` is to select what is below them. That mask ends at the high bit of `mm.h`, whose
pages have 256 bytes, so it stops four bits short of the lowest index. Put back at their
positions, the fields give the address exactly when it has none of these bits.
-/

namespace SimpleOs

/-! ## The offset mask -/

def nbits2 (n : Word32) : Nat := if n &&& 2 != 0 then 1 else 0

def nbits4 (n : Word32) : Nat := if n &&& 0xC != 0 then 2 + nbits2 (n >>> 2) else nbits2 n

def nbits8 (n : Word32) : Nat := if n &&& 0xF0 != 0 then 4 + nbits4 (n >>> 4) else nbits4 n

def nbits16 (n : Word32) : Nat := if n &&& 0xFF00 != 0 then 8 + nbits8 (n >>> 8) else nbits8 n

def nbits32 (n : Word32) : Nat :=
  if n &&& 0xFFFF0000 != 0 then 16 + nbits16 (n >>> 16) else nbits16 n

/-- `NBITS(n)`, the position of the highest bit. -/
def nbits (n : Word32) : Nat := if n = 0 then 0 else nbits32 n

/-- `PAGING_ADDR_OFFST_HIBIT` -/
def pagingAddrOffstHibit : Nat := nbits (BitVec.ofNat 32 pagingPagesz) - 1

/-- `PAGING64_ADDR_OFFST_MASK`. Its high bit is the one of `mm.h`, not 11. -/
def paging64AddrOffstMask : Addr := genmask64 pagingAddrOffstHibit 0

theorem pagingAddrOffstHibit_eq : pagingAddrOffstHibit = pagingAddrLobit - 1 := by decide

/-! ## Splitting and joining -/

/-- The indices of an address and the offset that the mask selects. -/
def addrFields (addr : Addr) : Radix.Path TableIndex 4 × Addr :=
  (getPdFromAddress addr, addr &&& paging64AddrOffstMask)

/-- The fields placed back at their low bits and added up. -/
def joinFields (fields : Radix.Path TableIndex 4 × Addr) : Addr :=
  let ((pgd, p4d, pud, pmd, pt), offst) := fields
  (pgd.1 <<< 48) + (p4d.1 <<< 39) + (pud.1 <<< 30) + (pmd.1 <<< 21) + (pt.1 <<< 12) + offst

/-- The masks of the six fields. -/
def fieldMasks : List Addr :=
  [genmask64 56 48, genmask64 47 39, genmask64 38 30, genmask64 29 21, genmask64 20 12,
    paging64AddrOffstMask]

/-- The bits of an address from 8 to 11. -/
def missedBits (addr : Addr) : Nat := addr.toNat / 2 ^ 8 % 2 ^ 4

theorem offst_toNat (addr : Addr) :
    (addr &&& paging64AddrOffstMask).toNat = addr.toNat % 2 ^ 8 := by
  have hfield := addrField_toNat addr (show 0 < 8 by decide) (show 0 + 8 ≤ 64 by decide)
  rw [Nat.pow_zero, Nat.div_one] at hfield
  rw [← hfield]
  unfold addrField paging64AddrOffstMask
  rw [pagingAddrOffstHibit_eq, BitVec.ushiftRight_zero]
  rfl

/-- An index at its position takes no bit past the end of the word. -/
theorem shiftLeft_index_toNat (index : TableIndex) {lobit : Nat} (hfit : lobit + 9 ≤ 57) :
    (index.1 <<< lobit).toNat = index.1.toNat * 2 ^ lobit := by
  have hindex : index.1.toNat < 2 ^ 9 := index.2
  have hpow : 2 ^ 9 * 2 ^ lobit ≤ 2 ^ 57 := by
    rw [← Nat.pow_add]
    exact Nat.pow_le_pow_right (by decide) (by omega)
  have hlt := Nat.mul_lt_mul_of_pos_right hindex (Nat.two_pow_pos lobit)
  rw [BitVec.toNat_shiftLeft, Nat.shiftLeft_eq]
  exact Nat.mod_eq_of_lt (by omega)

/-- A field at its position fills the gap between the bits above it and those from it on. -/
theorem field_add_above (value lobit : Nat) :
    value / 2 ^ (lobit + 9) * 2 ^ (lobit + 9) + value / 2 ^ lobit % 2 ^ 9 * 2 ^ lobit =
      value / 2 ^ lobit * 2 ^ lobit := by
  rw [Nat.pow_add, ← Nat.div_div_eq_div_mul, Nat.mul_comm (2 ^ lobit), ← Nat.mul_assoc,
    ← Nat.add_mul, Nat.div_add_mod']

/-- The fields join to the address without the bits that the mask misses. -/
theorem joinFields_toNat {addr : Addr} (haddr : addr.toNat < 2 ^ 57) :
    (joinFields (addrFields addr)).toNat = addr.toNat / 2 ^ 12 * 2 ^ 12 + addr.toNat % 2 ^ 8 := by
  have htop : addr.toNat / 2 ^ 57 * 2 ^ 57 = 0 := by
    rw [Nat.div_eq_of_lt haddr, Nat.zero_mul]
  -- from the top index down, each field adds the bits down to its own position
  have h48 := field_add_above addr.toNat 48
  have h39 := field_add_above addr.toNat 39
  have h30 := field_add_above addr.toNat 30
  have h21 := field_add_above addr.toNat 21
  have h12 := field_add_above addr.toNat 12
  rw [htop, Nat.zero_add] at h48
  have hpages : addr.toNat / 2 ^ 12 * 2 ^ 12 ≤ addr.toNat := Nat.div_mul_le_self _ _
  have hoffst := Nat.mod_lt addr.toNat (show 2 ^ 8 > 0 by decide)
  unfold joinFields addrFields getPdFromAddress
  simp only [BitVec.toNat_add, Nat.mod_add_mod]
  rw [shiftLeft_index_toNat _ (by decide), shiftLeft_index_toNat _ (by decide),
    shiftLeft_index_toNat _ (by decide), shiftLeft_index_toNat _ (by decide),
    shiftLeft_index_toNat _ (by decide), offst_toNat, pdIndex_toNat, pdIndex_toNat,
    pdIndex_toNat, pdIndex_toNat, pdIndex_toNat, h48, h39, h30, h21, h12]
  exact Nat.mod_eq_of_lt (by omega)

theorem joinFields_eq_iff {addr : Addr} (haddr : addr.toNat < 2 ^ 57) :
    joinFields (addrFields addr) = addr ↔ missedBits addr = 0 := by
  unfold missedBits
  rw [← BitVec.toNat_inj, joinFields_toNat haddr]
  omega

/-- Addresses that differ in a bit that some mask has differ in a field, and only they do. -/
theorem addrFields_ne_iff {addr other : Addr} (haddr : addr.toNat < 2 ^ 57)
    (hother : other.toNat < 2 ^ 57) :
    addrFields addr ≠ addrFields other ↔
      addr.toNat / 2 ^ 12 ≠ other.toNat / 2 ^ 12 ∨ addr.toNat % 2 ^ 8 ≠ other.toNat % 2 ^ 8 := by
  rw [← not_and_or, not_iff_not]
  constructor
  · intro hsame
    have hjoin := congrArg (fun fields => (joinFields fields).toNat) hsame
    simp only [joinFields_toNat haddr, joinFields_toNat hother] at hjoin
    omega
  · rintro ⟨hhigh, hlow⟩
    have hindex : ∀ {lobit : Nat} (hfit : lobit + 9 ≤ 64), 12 ≤ lobit →
        pdIndex addr lobit hfit = pdIndex other lobit hfit := by
      intro lobit hfit hlobit
      obtain ⟨above, rfl⟩ := Nat.exists_eq_add_of_le hlobit
      apply Subtype.ext
      apply BitVec.eq_of_toNat_eq
      rw [pdIndex_toNat, pdIndex_toNat, Nat.pow_add, ← Nat.div_div_eq_div_mul,
        ← Nat.div_div_eq_div_mul, hhigh]
    have hoffst : addr &&& paging64AddrOffstMask = other &&& paging64AddrOffstMask := by
      apply BitVec.eq_of_toNat_eq
      rw [offst_toNat, offst_toNat, hlow]
    unfold addrFields getPdFromAddress
    rw [hindex _ (by decide), hindex _ (by decide), hindex _ (by decide), hindex _ (by decide),
      hindex _ (by decide), hoffst]

/-- Every bit of the bus but those from 8 to 11 is in one mask. -/
theorem countP_fieldMasks (index : Nat) (hindex : index < 57) :
    fieldMasks.countP (·.getLsbD index) = 1 ↔ ¬ (8 ≤ index ∧ index ≤ 11) := by
  have hhigh : pagingAddrOffstHibit = 7 := by decide
  unfold fieldMasks paging64AddrOffstMask
  simp only [List.countP_cons, List.countP_nil, getLsbD_genmask64, hhigh, Nat.reduceLT,
    Bool.and_eq_true, decide_eq_true_eq]
  split_ifs <;> omega

/-! ## The round trip -/

/-- An address comes back from its fields exactly when it has none of the missed bits, and
two addresses differ in a field exactly when they differ in another bit. -/
theorem addrFields_roundTrip_iff {addr other : Addr} (haddr : addr.toNat < 2 ^ 57)
    (hother : other.toNat < 2 ^ 57) :
    (joinFields (addrFields addr) = addr ↔ missedBits addr = 0) ∧
      (addrFields addr ≠ addrFields other ↔
        addr.toNat / 2 ^ 12 ≠ other.toNat / 2 ^ 12 ∨ addr.toNat % 2 ^ 8 ≠ other.toNat % 2 ^ 8) ∧
      ∀ index < 57,
        fieldMasks.countP (·.getLsbD index) = 1 ↔ ¬ (8 ≤ index ∧ index ≤ 11) :=
  ⟨joinFields_eq_iff haddr, addrFields_ne_iff haddr hother, countP_fieldMasks⟩

/-- At the last byte of a page of 256 bytes and the first byte of the next page of 4096. -/
theorem addrFields_roundTrip_pages :
    joinFields (addrFields 0x20ff) = 0x20ff ∧ addrFields 0x20ff ≠ addrFields 0x3000 :=
  have hexact := addrFields_roundTrip_iff (show (0x20ff : Addr).toNat < 2 ^ 57 by decide)
    (show (0x3000 : Addr).toNat < 2 ^ 57 by decide)
  ⟨hexact.1.mpr (by decide), hexact.2.1.mpr (Or.inl (by decide))⟩

/-- The address 0x100 joins to 0 and has the fields of 0. -/
theorem not_addrFields_roundTrip :
    (0x100 : Addr).toNat < 2 ^ 57 ∧ joinFields (addrFields 0x100) ≠ 0x100 ∧
      (0x100 : Addr) ≠ 0 ∧ addrFields 0x100 = addrFields 0 := by
  refine ⟨by decide, by decide, by decide, ?_⟩
  rfl

end SimpleOs
