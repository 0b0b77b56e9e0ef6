import Mathlib.Tactic.Tauto
import SimpleOs.Machine.Basic

/-! # Page and address formats

The macros of `bitops.h`, `mm.h` and `mm64.h`. The mapping functions split an address
with the constants of `mm64.h`, whose pages have 4096 bytes. The access functions split
it with those of `mm.h`, whose pages have 256 bytes. Masks of `mm.h` are 32-bit words,
also where they meet a 64-bit table entry.
-/

namespace SimpleOs

/-! ## `bitops.h` -/

/-- `BIT(nr)` -/
def bit (nr : Nat) : Word32 := 1#32 <<< nr

/-- `GENMASK(h, l)`, with `BITS_PER_LONG` 32. -/
def genmask (h l : Nat) : Word32 :=
  (BitVec.allOnes 32 <<< l) &&& (BitVec.allOnes 32 >>> (32 - h - 1))

/-- `GENMASK64(h, l)` -/
def genmask64 (h l : Nat) : Addr :=
  (BitVec.allOnes 64 <<< l) &&& (BitVec.allOnes 64 >>> (64 - h - 1))

/-- `DIV_ROUND_UP(n, d)` on 64-bit words. -/
def divRoundUp (n d : Addr) : Addr := (n + d - 1) / d

/-! ## Value operators of `mm.h` -/

def setbit (v : Addr) (mask : Word32) : Addr := v ||| mask.setWidth 64

/-- `CLRBIT`. The complement is taken in 32 bits, so the upper half is cleared too. -/
def clrbit (v : Addr) (mask : Word32) : Addr := v &&& (~~~mask).setWidth 64

def setval (v value : Addr) (mask : Word32) (offst : Nat) : Addr :=
  clrbit v mask ||| ((value <<< offst) &&& mask.setWidth 64)

def getval {width : Nat} (v : BitVec width) (mask : Word32) (offst : Nat) : BitVec width :=
  (v &&& mask.setWidth width) >>> offst

/-! ## Page table entries -/

def pagingPtePresentMask : Word32 := bit 31
def pagingPteSwappedMask : Word32 := bit 30
def pagingPteReserveMask : Word32 := bit 29
def pagingPteDirtyMask : Word32 := bit 28
def pagingPteFpnLobit : Nat := 0
def pagingPteFpnMask : Word32 := genmask 12 0
def pagingPteSwptypLobit : Nat := 0
def pagingPteSwptypMask : Word32 := genmask 4 0
def pagingPteSwpoffLobit : Nat := 5
def pagingPteSwpoffMask : Word32 := genmask 25 5

def pagingPagePresent (pte : Word32) : Bool := pte &&& pagingPtePresentMask != 0

def pagingFpn (pte : Word32) : Word32 := getval pte pagingPteFpnMask pagingPteFpnLobit

/-! ## Addresses on the access path -/

/-- `PAGING_PAGESZ` -/
def pagingPagesz : Nat := 256

/-- `PAGING_ADDR_PGN_LOBIT` and `PAGING_ADDR_FPN_LOBIT`, both `NBITS(PAGING_PAGESZ)`. -/
def pagingAddrLobit : Nat := 8

def pagingOffstMask : Word32 := genmask (pagingAddrLobit - 1) 0

/-- `PAGING_PGN_MASK`, up to the last bit of the 22-bit bus. -/
def pagingPgnMask : Word32 := genmask 21 pagingAddrLobit

def pagingPgn {width : Nat} (x : BitVec width) : BitVec width :=
  getval x pagingPgnMask pagingAddrLobit

def pagingOffst {width : Nat} (x : BitVec width) : BitVec width := getval x pagingOffstMask 0

/-- The physical address that `pg_getval` and `pg_setval` form, an `int`. -/
def phyaddr (fpn off : Word32) : Word32 := (fpn <<< pagingAddrLobit) + off

/-! ## Addresses on the mapping path -/

/-- `PAGING64_PAGESZ` -/
def paging64Pagesz : Addr := 4096

/-- `PAGING64_ADDR_PT_SHIFT` -/
def paging64AddrPtShift : Nat := 12

/-- `PAGING64_MAX_PGN`, the number of entries of a table. -/
def paging64MaxPgn : Nat := 512

def paging64PageAlignsz (sz : Addr) : Addr := divRoundUp sz paging64Pagesz * paging64Pagesz

/-- The field of an address between two bits, as `get_pd_from_address` extracts it. -/
def addrField (addr : Addr) (hibit lobit : Nat) : Addr :=
  (addr &&& genmask64 hibit lobit) >>> lobit

/-! ## Fields as numbers -/

theorem getLsbD_genmask {h l i : Nat} (hbound : h < 32) :
    (genmask h l).getLsbD i = (decide (l ≤ i) && decide (i ≤ h)) := by
  unfold genmask
  simp only [BitVec.getLsbD_and, BitVec.getLsbD_shiftLeft, BitVec.getLsbD_ushiftRight,
    BitVec.getLsbD_allOnes]
  rw [Bool.eq_iff_iff]
  simp
  omega

/-- Above its high bit a mask has none. -/
theorem getLsbD_genmask_of_gt {h l i : Nat} (hbound : h < 32) (hgt : h < i) :
    (genmask h l).getLsbD i = false := by
  rw [getLsbD_genmask hbound, decide_eq_false (Nat.not_le.mpr hgt), Bool.and_false]

theorem getLsbD_bit_of_lt {nr i : Nat} (hlt : i < nr) : (bit nr).getLsbD i = false := by
  unfold bit
  simp only [BitVec.getLsbD_shiftLeft, hlt, decide_true, Bool.not_true, Bool.and_false,
    Bool.false_and]

theorem getLsbD_genmask64 {h l i : Nat} (hbound : h < 64) :
    (genmask64 h l).getLsbD i = (decide (l ≤ i) && decide (i ≤ h)) := by
  unfold genmask64
  simp only [BitVec.getLsbD_and, BitVec.getLsbD_shiftLeft, BitVec.getLsbD_ushiftRight,
    BitVec.getLsbD_allOnes]
  rw [Bool.eq_iff_iff]
  simp
  omega

/-- A field of `count` bits at `lobit` is a quotient and a remainder. -/
theorem getval_toNat {width : Nat} (v : BitVec width) (count lobit : Nat) (hcount : 0 < count)
    (hfit : lobit + count ≤ 32) :
    (getval v (genmask (lobit + count - 1) lobit) lobit).toNat =
      v.toNat / 2 ^ lobit % 2 ^ count := by
  apply Nat.eq_of_testBit_eq
  intro i
  unfold getval
  rw [BitVec.testBit_toNat, BitVec.getLsbD_ushiftRight, BitVec.getLsbD_and,
    BitVec.getLsbD_setWidth, getLsbD_genmask (by omega), Nat.testBit_mod_two_pow,
    Nat.testBit_div_two_pow, ← BitVec.testBit_toNat, Nat.add_comm i lobit]
  have hrange : lobit + i ≤ lobit + count - 1 ↔ i < count := by omega
  have hwidth : v.toNat.testBit (lobit + i) = true → lobit + i < width := by
    rw [BitVec.testBit_toNat]
    exact BitVec.lt_of_getLsbD
  rw [Bool.eq_iff_iff]
  simp only [Bool.and_eq_true, decide_eq_true_eq, hrange, Nat.le_add_right, true_and]
  tauto

theorem addrField_toNat (addr : Addr) {count lobit : Nat} (hcount : 0 < count)
    (hfit : lobit + count ≤ 64) :
    (addrField addr (lobit + count - 1) lobit).toNat = addr.toNat / 2 ^ lobit % 2 ^ count := by
  apply Nat.eq_of_testBit_eq
  intro i
  unfold addrField
  rw [BitVec.testBit_toNat, BitVec.getLsbD_ushiftRight, BitVec.getLsbD_and,
    getLsbD_genmask64 (by omega), Nat.testBit_mod_two_pow, Nat.testBit_div_two_pow,
    ← BitVec.testBit_toNat, Nat.add_comm i lobit]
  have hrange : lobit + i ≤ lobit + count - 1 ↔ i < count := by omega
  rw [Bool.eq_iff_iff]
  simp only [Bool.and_eq_true, decide_eq_true_eq, hrange, Nat.le_add_right, true_and]
  exact and_comm

theorem pagingOffst_toNat {width : Nat} (x : BitVec width) :
    (pagingOffst x).toNat = x.toNat % 2 ^ 8 := by
  have hfield := getval_toNat x 8 0 (by decide) (by decide)
  rw [Nat.pow_zero, Nat.div_one] at hfield
  exact hfield

end SimpleOs
