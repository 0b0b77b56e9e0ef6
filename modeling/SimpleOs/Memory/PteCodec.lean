import SimpleOs.Memory.Entry
import SimpleOs.Memory.ReadBack

/-! # The entry of one page over its history

`pte_set_fpn` and `pte_set_swap` change an entry in place, and the fields of the two layouts
overlap. The marks say which layout holds, and each writer stores all fields of its own
layout, so an entry decodes as the last call encoded it whatever was there before. The masks
have 32 bits, so every call clears the upper half of the word.
-/

namespace SimpleOs

/-- The swap type of an entry: `GETVAL` with the `SWPTYP` field of `mm.h`. -/
def pteSwptyp (pte : Word32) : Word32 := getval pte pagingPteSwptypMask pagingPteSwptypLobit

/-! ## Bits of a written entry -/

/-- A stored field leaves nothing above the 32 bits of its mask. -/
theorem setval_toNat_lt (v value : Addr) (mask : Word32) (offst : Nat) :
    (setval v value mask offst).toNat < 2 ^ 32 := by
  apply Nat.lt_pow_two_of_testBit
  intro index hindex
  have hwide : ¬ index < 32 := by omega
  have hmask : mask.getLsbD index = false := BitVec.getLsbD_of_ge mask index hindex
  unfold setval clrbit
  rw [BitVec.testBit_toNat]
  simp only [BitVec.getLsbD_or, BitVec.getLsbD_and, BitVec.getLsbD_setWidth, BitVec.getLsbD_not,
    hwide, hmask, decide_false, Bool.false_and, Bool.and_false, Bool.or_false]

/-- The type goes into the low bits of a swap entry. -/
theorem getLsbD_swapEntry_of_lt {swptyp : Int} {swpoff prior : Addr} {index : Nat}
    (hindex : index < 5) :
    (swapEntry swptyp swpoff prior).getLsbD index = (ofCInt swptyp).getLsbD index := by
  have hmask : pagingPteSwptypMask = genmask (0 + 5 - 1) 0 := rfl
  have hbelow : pagingPteSwpoffMask.getLsbD index = false := by
    have hout : ¬ 5 ≤ index := by omega
    unfold pagingPteSwpoffMask
    rw [getLsbD_genmask (by decide), decide_eq_false hout, Bool.false_and]
  unfold swapEntry pagingPteSwptypLobit
  rw [getLsbD_setval_of_lt (by omega) hbelow, hmask]
  exact getLsbD_setval_field _ (ofCInt swptyp) hindex (by decide)

/-- Between the offset and the two marks `pte_set_swap` keeps what the entry was before. -/
theorem getLsbD_swapEntry_of_ge {swptyp : Int} {swpoff prior : Addr} {index : Nat}
    (hlow : 26 ≤ index) (hhigh : index < 30) :
    (swapEntry swptyp swpoff prior).getLsbD index = prior.getLsbD index := by
  have hswapped : (bit 30).getLsbD index = false := getLsbD_bit_of_lt hhigh
  have hpresent : (bit 31).getLsbD index = false := getLsbD_bit_of_lt (by omega)
  unfold swapEntry pagingPteSwptypMask pagingPteSwpoffMask
  rw [getLsbD_setval_of_lt (by omega) (getLsbD_genmask_of_gt (by decide) (by omega)),
    getLsbD_setval_of_lt (by omega) (getLsbD_genmask_of_gt (by decide) (by omega))]
  unfold setbit pagingPteSwappedMask pagingPtePresentMask
  simp only [BitVec.getLsbD_or, BitVec.getLsbD_setWidth, hswapped, hpresent, Bool.and_false,
    Bool.or_false]

/-- The swap type reads back when it fits its field. -/
theorem pteSwptyp_swapEntry {swptyp : Int} (hnonneg : 0 ≤ swptyp) (hfits : swptyp < 2 ^ 5)
    (swpoff prior : Addr) :
    (pteSwptyp ((swapEntry swptyp swpoff prior).setWidth 32)).toNat = swptyp.toNat := by
  have hvalue : (ofCInt swptyp).toNat % 2 ^ 5 = swptyp.toNat := by
    unfold ofCInt
    rw [BitVec.toNat_ofInt]
    omega
  have hfield : (pteSwptyp ((swapEntry swptyp swpoff prior).setWidth 32)).toNat =
      ((swapEntry swptyp swpoff prior).setWidth 32).toNat / 2 ^ 0 % 2 ^ 5 :=
    getval_toNat _ 5 0 (by decide) (by decide)
  rw [hfield, ← hvalue]
  apply Nat.eq_of_testBit_eq
  intro index
  simp only [Nat.testBit_mod_two_pow, Nat.testBit_div_two_pow, BitVec.testBit_toNat,
    BitVec.getLsbD_setWidth, Nat.add_zero]
  by_cases hindex : index < 5
  · have hword : index < 32 := by omega
    rw [getLsbD_swapEntry_of_lt hindex]
    simp only [hword, decide_true, Bool.true_and]
  · simp only [hindex, decide_false, Bool.false_and]

/-! ## One call -/

/-- The two entries have the same `RESERVE` and `DIRTY` bits. -/
structure SameMarks (prior pte : Addr) : Prop where
  reserve : pte &&& pagingPteReserveMask.setWidth 64 = prior &&& pagingPteReserveMask.setWidth 64
  dirty : pte &&& pagingPteDirtyMask.setWidth 64 = prior &&& pagingPteDirtyMask.setWidth 64

theorem SameMarks.trans {first second third : Addr} (hfirst : SameMarks first second)
    (hsecond : SameMarks second third) : SameMarks first third where
  reserve := hsecond.reserve.trans hfirst.reserve
  dirty := hsecond.dirty.trans hfirst.dirty

theorem and_bit_congr {pte prior : Addr} {nr : Nat}
    (hsame : pte.getLsbD nr = prior.getLsbD nr) :
    pte &&& (bit nr).setWidth 64 = prior &&& (bit nr).setWidth 64 := by
  have hbit : ∀ index, (bit nr).getLsbD index = true → index = nr := by
    intro index hset
    unfold bit at hset
    rw [BitVec.getLsbD_shiftLeft, BitVec.getLsbD_one] at hset
    simp only [Bool.and_eq_true, Bool.not_eq_true', decide_eq_true_eq,
      decide_eq_false_iff_not] at hset
    omega
  apply BitVec.eq_of_getLsbD_eq
  intro index _
  rw [BitVec.getLsbD_and, BitVec.getLsbD_and, BitVec.getLsbD_setWidth]
  cases hset : (bit nr).getLsbD index with
  | false => simp only [Bool.and_false]
  | true => rw [hbit index hset, hsame]

/-- Bits 28 and 29 survive when nothing between the fields and the two marks changes. -/
theorem sameMarks_of_getLsbD {pte prior : Addr}
    (hsame : ∀ index, 26 ≤ index → index < 30 → pte.getLsbD index = prior.getLsbD index) :
    SameMarks prior pte where
  reserve := and_bit_congr (hsame 29 (by decide) (by decide))
  dirty := and_bit_congr (hsame 28 (by decide) (by decide))

namespace PteCall

/-- A call of the two writers on the page, with numbers that fit their fields. -/
def Encodes (pgn : Addr) : PteCall → Prop
  | setEntry _ _ => False
  | setFpn page fpn => page = pgn ∧ fpn.toNat < 2 ^ 13
  | setSwap page swptyp swpoff =>
      page = pgn ∧ 0 ≤ swptyp ∧ swptyp < 2 ^ 5 ∧ swpoff.toNat < 2 ^ 21

/-- The entry, as the readers take it, says what the call wrote. -/
def Decodes (pte : Word32) : PteCall → Prop
  | setEntry _ pteVal => pte = pteVal
  | setFpn _ fpn =>
      pagingPagePresent pte = true ∧ pteSwapped pte = false ∧
        (pagingFpn pte).toNat = fpn.toNat
  | setSwap _ swptyp swpoff =>
      pagingPagePresent pte = true ∧ pteSwapped pte = true ∧
        ((pteSwptyp pte).toNat : Int) = swptyp ∧ (pagingSwp pte).toNat = swpoff.toNat

/-- The writers as steps of a descriptor. -/
def step (mm : MmStruct) (call : PteCall) : Option MmStruct := (call.run mm).toOption

variable {pgn : Addr} {call : PteCall}

theorem Encodes.pgn_eq (hencodes : call.Encodes pgn) : call.pgn = pgn := by
  cases call with
  | setEntry page pteVal => exact hencodes.elim
  | setFpn page fpn => exact hencodes.1
  | setSwap page swptyp swpoff => exact hencodes.1

theorem entry_toNat_lt (hencodes : call.Encodes pgn) (prior : Addr) :
    (call.entry prior).toNat < 2 ^ 32 := by
  cases call with
  | setEntry page pteVal => exact hencodes.elim
  | setFpn page fpn => exact setval_toNat_lt _ _ _ _
  | setSwap page swptyp swpoff => exact setval_toNat_lt _ _ _ _

/-- What a call writes over any prior entry decodes as the call. -/
theorem decodes_entry (hencodes : call.Encodes pgn) (prior : Addr) :
    call.Decodes ((call.entry prior).setWidth 32) := by
  cases call with
  | setEntry page pteVal => exact hencodes.elim
  | setFpn page fpn =>
      obtain ⟨-, hfpn⟩ := hencodes
      refine ⟨pagingPagePresent_fpnEntry fpn prior, pteSwapped_fpnEntry fpn prior, ?_⟩
      exact (pagingFpn_fpnEntry fpn prior).trans (Nat.mod_eq_of_lt hfpn)
  | setSwap page swptyp swpoff =>
      obtain ⟨-, hnonneg, htype, hoff⟩ := hencodes
      refine ⟨pagingPagePresent_swapEntry swptyp swpoff prior,
        pteSwapped_swapEntry swptyp swpoff prior, ?_, ?_⟩
      · change ((pteSwptyp ((swapEntry swptyp swpoff prior).setWidth 32)).toNat : Int) = swptyp
        rw [pteSwptyp_swapEntry hnonneg htype, Int.toNat_of_nonneg hnonneg]
      · exact (pagingSwp_swapEntry swptyp swpoff prior).trans (Nat.mod_eq_of_lt hoff)

theorem sameMarks_entry (hencodes : call.Encodes pgn) (prior : Addr) :
    SameMarks prior (call.entry prior) := by
  apply sameMarks_of_getLsbD
  intro index hlow hhigh
  cases call with
  | setEntry page pteVal => exact hencodes.elim
  | setFpn page fpn => exact getLsbD_fpnEntry_of_ge (by omega) hhigh
  | setSwap page swptyp swpoff => exact getLsbD_swapEntry_of_ge hlow hhigh

/-! ## Any history -/

/-- A call on the page completes, and the walk can be made again. -/
theorem exists_step {mm : MmStruct} (hpgd : mm.pgd ≠ none) (hencodes : call.Encodes pgn) :
    ∃ next, step mm call = some next ∧ next.pgd ≠ none ∧
      next.leaf pgn = call.entry (mm.leaf pgn) := by
  obtain ⟨pgd, hpgd⟩ := Option.ne_none_iff_exists'.mp hpgd
  obtain ⟨next, hupdate⟩ := MmStruct.exists_updatePte hpgd call.pgn fun pte => call.entry pte
  refine ⟨next, ?_, ?_, ?_⟩
  · unfold step
    rw [run_eq, hupdate]
    rfl
  · obtain ⟨_, _, rfl⟩ := MmStruct.updatePte_eq_ok hupdate
    exact Option.some_ne_none _
  · have hleaf := MmStruct.leaf_updatePte_self hupdate
    rwa [hencodes.pgn_eq] at hleaf

/-- After any history of calls on one page, over any prior entry, the entry fits 32 bits,
decodes as the last call and has the prior marks. -/
theorem decodes_last {mm : MmStruct} (hpgd : mm.pgd ≠ none) {calls : List PteCall}
    (hcalls : ∀ call ∈ calls, call.Encodes pgn) :
    ∃ after, Runs.run step mm calls = some after ∧
      SameMarks (mm.leaf pgn) (after.leaf pgn) ∧
      ∀ last ∈ calls.getLast?, (after.leaf pgn).toNat < 2 ^ 32 ∧
        last.Decodes ((after.leaf pgn).setWidth 32) := by
  induction calls generalizing mm with
  | nil => exact ⟨mm, rfl, ⟨rfl, rfl⟩, fun last hlast => by cases hlast⟩
  | cons call rest ih =>
      have hencodes := hcalls call List.mem_cons_self
      obtain ⟨next, hstep, hnext, hleaf⟩ := exists_step hpgd hencodes
      obtain ⟨after, hrun, hmarks, hlast⟩ :=
        ih hnext fun other hother => hcalls other (List.mem_cons_of_mem _ hother)
      refine ⟨after, ?_, ?_, ?_⟩
      · rw [Runs.run_cons, hstep]
        exact hrun
      · rw [hleaf] at hmarks
        exact (sameMarks_entry hencodes _).trans hmarks
      · intro last hmem
        cases rest with
        | nil =>
            obtain rfl : call = last := Option.some.inj hmem
            obtain rfl : next = after := Option.some.inj hrun
            rw [hleaf]
            exact ⟨entry_toNat_lt hencodes _, decodes_entry hencodes _⟩
        | cons second others => exact hlast last hmem

/-- A page that goes to frame 7 and then to slot 3 of device 1. -/
theorem decodes_last_swappedOut :
    ∃ after, Runs.run step (initMm .null) [.setFpn 5 7, .setSwap 5 1 3] = some after ∧
      SameMarks ((initMm .null).leaf 5) (after.leaf 5) ∧
      ∀ last ∈ [PteCall.setFpn 5 7, .setSwap 5 1 3].getLast?,
        (after.leaf 5).toNat < 2 ^ 32 ∧ last.Decodes ((after.leaf 5).setWidth 32) := by
  refine decodes_last (Option.some_ne_none _) ?_
  intro call hcall
  simp only [List.mem_cons, List.not_mem_nil, or_false] at hcall
  rcases hcall with rfl | rfl
  · exact ⟨rfl, by decide⟩
  · exact ⟨rfl, by decide, by decide, by decide⟩

end PteCall

end SimpleOs
