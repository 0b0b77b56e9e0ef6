import SimpleOs.Memory.Memphy

/-! # Copying a page between devices

`__swap_cp_page` copies the cells of a frame one by one. Whatever the devices are, it leaves
their lists of free frames alone. Between random access devices, and inside their storage,
the destination frame ends up with the bytes of the source frame.
-/

namespace SimpleOs

namespace MemphyStruct

/-- Same size and same list of free frames. -/
structure SameFrames (mp after : MemphyStruct) : Prop where
  freeFpList : after.freeFpList = mp.freeFpList
  maxsz : after.maxsz = mp.maxsz

theorem SameFrames.refl (mp : MemphyStruct) : mp.SameFrames mp := ⟨rfl, rfl⟩

theorem SameFrames.trans {mp middle after : MemphyStruct} (hfirst : mp.SameFrames middle)
    (hsecond : middle.SameFrames after) : mp.SameFrames after where
  freeFpList := hsecond.freeFpList.trans hfirst.freeFpList
  maxsz := hsecond.maxsz.trans hfirst.maxsz

variable {mp after : MemphyStruct} {addr : Addr} {data : Byte}

theorem read_eq_self {value : Option Byte} (hread : mp.read addr = .ok (value, after)) :
    after = mp := by
  unfold read seqRead at hread
  cases hrandom : mp.rdmflg with
  | true =>
      simp only [hrandom, if_true] at hread
      obtain ⟨_, -, hpair⟩ := map_eq_ok.mp hread
      exact (Prod.mk.inj hpair).2.symm
  | false =>
      simp only [hrandom] at hread
      exact (Prod.mk.inj (Except.ok.inj hread)).2.symm

/-- A write changes one cell at most. -/
theorem write_eq_ok {status : Int} (hwrite : mp.write addr data = .ok (status, after)) :
    mp.SameFrames after ∧ after.storage.length = mp.storage.length ∧
      ∀ index, index ≠ addr.toNat → after.storage[index]? = mp.storage[index]? := by
  unfold write seqWrite at hwrite
  cases hrandom : mp.rdmflg with
  | true =>
      simp only [hrandom, if_true] at hwrite
      obtain ⟨stored, hstored, hpair⟩ := map_eq_ok.mp hwrite
      obtain rfl := (Prod.mk.inj hpair).2
      unfold store at hstored
      split at hstored
      next =>
        obtain rfl := Except.ok.inj hstored
        exact ⟨⟨rfl, rfl⟩, List.length_set,
          fun index hindex => List.getElem?_set_ne (Ne.symm hindex)⟩
      next => cases hstored
  | false =>
      simp only [hrandom] at hwrite
      obtain rfl := (Prod.mk.inj (Except.ok.inj hwrite)).2
      exact ⟨SameFrames.refl mp, rfl, fun _ _ => rfl⟩

/-- The storage has the frame. -/
structure HasFrame (mp : MemphyStruct) (fpn : Addr) : Prop where
  inside : (fpn.toNat + 1) * pagingPagesz ≤ mp.storage.length
  fits : fpn.toNat < 2 ^ 56

end MemphyStruct

open MemphyStruct

/-! ## The lists of free frames -/

theorem sameFrames_swapCpCell {junk : Byte} {srcfpn dstfpn : Addr}
    {devices final : MemphyStruct × MemphyStruct} {cellidx : Nat}
    (hcell : swapCpCell junk srcfpn dstfpn devices cellidx = .ok final) :
    devices.1.SameFrames final.1 ∧ devices.2.SameFrames final.2 := by
  unfold swapCpCell at hcell
  obtain ⟨⟨data, mpsrc⟩, hread, hcell⟩ := bind_eq_ok.mp hcell
  obtain ⟨⟨status, mpdst⟩, hwrite, hcell⟩ := bind_eq_ok.mp hcell
  obtain rfl := Except.ok.inj hcell
  exact ⟨read_eq_self hread ▸ SameFrames.refl _, (write_eq_ok hwrite).1⟩

theorem sameFrames_foldlM {junk : Byte} {srcfpn dstfpn : Addr} (cells : List Nat)
    {devices final : MemphyStruct × MemphyStruct}
    (hfold : cells.foldlM (swapCpCell junk srcfpn dstfpn) devices = .ok final) :
    devices.1.SameFrames final.1 ∧ devices.2.SameFrames final.2 := by
  induction cells generalizing devices with
  | nil =>
      obtain rfl := Except.ok.inj hfold
      exact ⟨SameFrames.refl _, SameFrames.refl _⟩
  | cons cell rest ih =>
      rw [List.foldlM_cons] at hfold
      obtain ⟨middle, hcell, hrest⟩ := bind_eq_ok.mp hfold
      obtain ⟨hsrc, hdst⟩ := sameFrames_swapCpCell hcell
      exact ⟨hsrc.trans (ih hrest).1, hdst.trans (ih hrest).2⟩

theorem sameFrames_swapCpPage {junk : Byte} {mpsrc mpdst src dst : MemphyStruct}
    {srcfpn dstfpn : Addr} (hcopy : swapCpPage junk mpsrc srcfpn mpdst dstfpn = .ok (src, dst)) :
    mpsrc.SameFrames src ∧ mpdst.SameFrames dst :=
  sameFrames_foldlM _ hcopy

/-! ## The contents -/

/-- The address of a cell of a frame. -/
theorem cell_toNat {fpn : Addr} (hfits : fpn.toNat < 2 ^ 56) {cellidx : Nat}
    (hcell : cellidx < pagingPagesz) :
    (fpn * BitVec.ofNat 64 pagingPagesz + BitVec.ofNat 64 cellidx).toNat =
      fpn.toNat * pagingPagesz + cellidx := by
  unfold pagingPagesz at hcell ⊢
  rw [BitVec.toNat_add, BitVec.toNat_mul, BitVec.toNat_ofNat, BitVec.toNat_ofNat]
  omega

variable {mpsrc mpdst : MemphyStruct} {srcfpn dstfpn : Addr}

theorem read_of_lt {mp : MemphyStruct} {addr : Addr} (hrandom : mp.rdmflg = true)
    (hlt : addr.toNat < mp.storage.length) :
    mp.read addr = .ok (some mp.storage[addr.toNat], mp) := by
  unfold MemphyStruct.read MemphyStruct.load
  rw [if_pos hrandom, List.getElem?_eq_getElem hlt]
  rfl

theorem write_of_lt {mp : MemphyStruct} {addr : Addr} (hrandom : mp.rdmflg = true)
    (hlt : addr.toNat < mp.storage.length) (data : Byte) :
    mp.write addr data = .ok (0, { mp with storage := mp.storage.set addr.toNat data }) := by
  unfold MemphyStruct.write MemphyStruct.store
  rw [if_pos hrandom, if_pos hlt]
  rfl

/-- Copying one cell inside both storages. -/
theorem swapCpCell_of_lt (junk : Byte) (hsrc : mpsrc.rdmflg = true) (hdst : mpdst.rdmflg = true)
    {cellidx src dst : Nat}
    (hsrcaddr : (srcfpn * BitVec.ofNat 64 pagingPagesz + BitVec.ofNat 64 cellidx).toNat = src)
    (hdstaddr : (dstfpn * BitVec.ofNat 64 pagingPagesz + BitVec.ofNat 64 cellidx).toNat = dst)
    (hload : src < mpsrc.storage.length) (hroom : dst < mpdst.storage.length) :
    swapCpCell junk srcfpn dstfpn (mpsrc, mpdst) cellidx =
      .ok (mpsrc, { mpdst with storage := mpdst.storage.set dst mpsrc.storage[src] }) := by
  subst hsrcaddr hdstaddr
  unfold swapCpCell
  simp only
  rw [read_of_lt hsrc hload, ok_bind]
  simp only
  rw [write_of_lt hdst hroom, ok_bind]
  rfl

/-- The first cells, as many as have been copied, are those of the source. -/
theorem foldlM_swapCpCell (junk : Byte) (hsrc : mpsrc.rdmflg = true) (hdst : mpdst.rdmflg = true)
    (hsrcfpn : mpsrc.HasFrame srcfpn) (hdstfpn : mpdst.HasFrame dstfpn) {count : Nat}
    (hcount : count ≤ pagingPagesz) :
    ∃ storage, (List.range count).foldlM (swapCpCell junk srcfpn dstfpn) (mpsrc, mpdst) =
        .ok (mpsrc, { mpdst with storage := storage }) ∧
      storage.length = mpdst.storage.length ∧
      ∀ index, storage[index]? =
        if dstfpn.toNat * pagingPagesz ≤ index ∧ index < dstfpn.toNat * pagingPagesz + count then
          mpsrc.storage[srcfpn.toNat * pagingPagesz + (index - dstfpn.toNat * pagingPagesz)]?
        else mpdst.storage[index]? := by
  induction count with
  | zero =>
      refine ⟨mpdst.storage, rfl, rfl, fun index => ?_⟩
      rw [if_neg (by omega)]
  | succ count ih =>
      obtain ⟨storage, hfold, hlength, hstorage⟩ := ih (by omega)
      have hsrcInside := hsrcfpn.inside
      have hdstInside := hdstfpn.inside
      have hcell : count < pagingPagesz := hcount
      rw [Nat.add_mul, Nat.one_mul] at hsrcInside hdstInside
      obtain ⟨src, hsrcaddr⟩ : ∃ src, srcfpn.toNat * pagingPagesz + count = src := ⟨_, rfl⟩
      obtain ⟨dst, hdstaddr⟩ : ∃ dst, dstfpn.toNat * pagingPagesz + count = dst := ⟨_, rfl⟩
      have hload : src < mpsrc.storage.length := by omega
      have hroom : dst < storage.length := by omega
      refine ⟨storage.set dst mpsrc.storage[src], ?_, ?_, ?_⟩
      · have hrandom : ({ mpdst with storage := storage } : MemphyStruct).rdmflg = true := hdst
        have hcopy : swapCpCell junk srcfpn dstfpn (mpsrc, { mpdst with storage := storage })
            count = .ok (mpsrc, { mpdst with storage := storage.set dst mpsrc.storage[src] }) :=
          swapCpCell_of_lt junk hsrc hrandom ((cell_toNat hsrcfpn.fits hcell).trans hsrcaddr)
            ((cell_toNat hdstfpn.fits hcell).trans hdstaddr) hload hroom
        rw [List.range_succ, List.foldlM_append, hfold, ok_bind, List.foldlM_cons, hcopy]
        rfl
      · rw [List.length_set, hlength]
      · intro index
        rw [List.getElem?_set]
        by_cases hindex : dst = index
        · subst hindex
          rw [if_pos rfl, if_pos hroom, if_pos (by omega), ← hdstaddr, Nat.add_sub_cancel_left,
            hsrcaddr, List.getElem?_eq_getElem hload]
        · rw [if_neg hindex, hstorage index]
          by_cases hrange : dstfpn.toNat * pagingPagesz ≤ index ∧
              index < dstfpn.toNat * pagingPagesz + count
          · rw [if_pos hrange, if_pos (by omega)]
          · rw [if_neg hrange, if_neg (by omega)]

/-- The destination frame gets the bytes of the source frame, and nothing else changes. -/
theorem swapCpPage_of_hasFrame (junk : Byte) (hsrc : mpsrc.rdmflg = true)
    (hdst : mpdst.rdmflg = true) (hsrcfpn : mpsrc.HasFrame srcfpn)
    (hdstfpn : mpdst.HasFrame dstfpn) :
    ∃ storage, swapCpPage junk mpsrc srcfpn mpdst dstfpn =
        .ok (mpsrc, { mpdst with storage := storage }) ∧
      storage.length = mpdst.storage.length ∧
      ∀ index, storage[index]? =
        if index / pagingPagesz = dstfpn.toNat then
          mpsrc.storage[srcfpn.toNat * pagingPagesz + index % pagingPagesz]?
        else mpdst.storage[index]? := by
  obtain ⟨storage, hfold, hlength, hstorage⟩ :=
    foldlM_swapCpCell junk hsrc hdst hsrcfpn hdstfpn (Nat.le_refl pagingPagesz)
  refine ⟨storage, hfold, hlength, fun index => ?_⟩
  have hdivmod := Nat.div_add_mod' index pagingPagesz
  have hmod := Nat.mod_lt index (show 0 < pagingPagesz by decide)
  rw [hstorage index]
  by_cases hframe : index / pagingPagesz = dstfpn.toNat
  · rw [hframe] at hdivmod
    rw [if_pos hframe, if_pos (by omega)]
    congr 2
    omega
  · rw [if_neg hframe, if_neg]
    rintro ⟨hlow, hhigh⟩
    refine hframe (Nat.div_eq_of_lt_le ?_ ?_)
    · exact hlow
    · rw [Nat.succ_mul]
      exact hhigh

end SimpleOs
