import SimpleOs.Memory.SwapCopy

/-! # Copying a page through pointers

`__swap_cp_page` gets pointers to its two devices, which may be the same one. Here the copy
runs on all devices of the memory, and on two different ones it is the copy between them.
Inside random access devices it gives the destination frame the bytes of the source frame and
changes no other byte, so a page that is copied out and back in is restored.
-/

namespace SimpleOs

open MemphyStruct

variable {Ptr : Type} [DecidableEq Ptr]

/-- One cell of `__swap_cp_page`, on the devices behind the pointers. -/
def swapCpCellAt (junk : Byte) (mpsrc : Ptr) (srcfpn : Addr) (mpdst : Ptr) (dstfpn : Addr)
    (devices : Ptr → MemphyStruct) (cellidx : Nat) : Except Fault (Ptr → MemphyStruct) := do
  let addrsrc := srcfpn * BitVec.ofNat 64 pagingPagesz + BitVec.ofNat 64 cellidx
  let addrdst := dstfpn * BitVec.ofNat 64 pagingPagesz + BitVec.ofNat 64 cellidx
  let (data, src) ← (devices mpsrc).read addrsrc
  let devices := Function.update devices mpsrc src
  let (_, dst) ← (devices mpdst).write addrdst (data.getD junk)
  return Function.update devices mpdst dst

/-- `__swap_cp_page` -/
def swapCpPageAt (junk : Byte) (mpsrc : Ptr) (srcfpn : Addr) (mpdst : Ptr) (dstfpn : Addr)
    (devices : Ptr → MemphyStruct) : Except Fault (Ptr → MemphyStruct) :=
  (List.range pagingPagesz).foldlM (swapCpCellAt junk mpsrc srcfpn mpdst dstfpn) devices

/-- The byte of a device with the given index in a frame. -/
def frameByte (mp : MemphyStruct) (fpn : Addr) (cellidx : Nat) : Option Byte :=
  mp.storage[fpn.toNat * pagingPagesz + cellidx]?

/-- The devices with two of them replaced. -/
def placeDevices (devices : Ptr → MemphyStruct) (mpsrc mpdst : Ptr)
    (pair : MemphyStruct × MemphyStruct) : Ptr → MemphyStruct :=
  Function.update (Function.update devices mpsrc pair.1) mpdst pair.2

variable {mpsrc mpdst : Ptr} {srcfpn dstfpn : Addr} {devices : Ptr → MemphyStruct}

/-! ## Two devices -/

theorem swapCpCellAt_of_ne (junk : Byte) (hne : mpsrc ≠ mpdst)
    (pair : MemphyStruct × MemphyStruct) (cellidx : Nat) :
    swapCpCellAt junk mpsrc srcfpn mpdst dstfpn (placeDevices devices mpsrc mpdst pair) cellidx =
      (swapCpCell junk srcfpn dstfpn pair cellidx).map (placeDevices devices mpsrc mpdst) := by
  have hsrc : placeDevices devices mpsrc mpdst pair mpsrc = pair.1 := by
    unfold placeDevices
    rw [Function.update_of_ne hne, Function.update_self]
  unfold swapCpCellAt swapCpCell
  simp only [hsrc]
  cases pair.1.read (srcfpn * BitVec.ofNat 64 pagingPagesz + BitVec.ofNat 64 cellidx) with
  | error fault => rfl
  | ok value =>
      have hdst : Function.update (placeDevices devices mpsrc mpdst pair) mpsrc value.2 mpdst =
          pair.2 := by
        unfold placeDevices
        rw [Function.update_of_ne hne.symm, Function.update_self]
      simp only [ok_bind, hdst]
      cases pair.2.write (dstfpn * BitVec.ofNat 64 pagingPagesz + BitVec.ofNat 64 cellidx)
          (value.1.getD junk) with
      | error fault => rfl
      | ok written =>
          refine congrArg Except.ok ?_
          unfold placeDevices
          rw [Function.update_comm hne.symm, Function.update_idem, Function.update_idem]

/-- Through two different pointers the copy is the one between two devices. -/
theorem swapCpPageAt_of_ne (junk : Byte) (hne : mpsrc ≠ mpdst) :
    swapCpPageAt junk mpsrc srcfpn mpdst dstfpn devices =
      (swapCpPage junk (devices mpsrc) srcfpn (devices mpdst) dstfpn).map
        (placeDevices devices mpsrc mpdst) := by
  have hcells : ∀ (cells : List Nat) (pair : MemphyStruct × MemphyStruct),
      cells.foldlM (swapCpCellAt junk mpsrc srcfpn mpdst dstfpn)
          (placeDevices devices mpsrc mpdst pair) =
        (cells.foldlM (swapCpCell junk srcfpn dstfpn) pair).map
          (placeDevices devices mpsrc mpdst) := by
    intro cells
    induction cells with
    | nil => exact fun pair => rfl
    | cons cell rest ih =>
        intro pair
        rw [List.foldlM_cons, List.foldlM_cons, swapCpCellAt_of_ne junk hne]
        cases swapCpCell junk srcfpn dstfpn pair cell with
        | error fault => rfl
        | ok copied => exact ih copied
  have hplace : placeDevices devices mpsrc mpdst (devices mpsrc, devices mpdst) = devices := by
    unfold placeDevices
    rw [Function.update_eq_self, Function.update_eq_self]
  have hcopy := hcells (List.range pagingPagesz) (devices mpsrc, devices mpdst)
  rw [hplace] at hcopy
  exact hcopy

/-! ## Any devices -/

/-- Copying one cell inside both storages. -/
theorem swapCpCellAt_of_lt (junk : Byte) {data : Byte} (hsrc : (devices mpsrc).rdmflg = true)
    (hdst : (devices mpdst).rdmflg = true) {cellidx src dst : Nat}
    (hsrcaddr : (srcfpn * BitVec.ofNat 64 pagingPagesz + BitVec.ofNat 64 cellidx).toNat = src)
    (hdstaddr : (dstfpn * BitVec.ofNat 64 pagingPagesz + BitVec.ofNat 64 cellidx).toNat = dst)
    (hload : (devices mpsrc).storage[src]? = some data)
    (hroom : dst < (devices mpdst).storage.length) :
    swapCpCellAt junk mpsrc srcfpn mpdst dstfpn devices cellidx =
      .ok (Function.update devices mpdst
        { devices mpdst with storage := (devices mpdst).storage.set dst data }) := by
  subst hsrcaddr hdstaddr
  obtain ⟨hlt, rfl⟩ := List.getElem?_eq_some_iff.mp hload
  unfold swapCpCellAt
  simp only
  rw [read_of_lt hsrc hlt, ok_bind]
  simp only [Function.update_eq_self]
  rw [write_of_lt hdst hroom, ok_bind]
  rfl

/-- The storage of the destination once the first cells of its frame are copied. -/
structure CellsCopied (devices : Ptr → MemphyStruct) (mpsrc : Ptr) (srcfpn : Addr) (mpdst : Ptr)
    (dstfpn : Addr) (count : Nat) (storage : List Byte) : Prop where
  length : storage.length = (devices mpdst).storage.length
  cells : ∀ index, storage[index]? =
    if dstfpn.toNat * pagingPagesz ≤ index ∧ index < dstfpn.toNat * pagingPagesz + count then
      frameByte (devices mpsrc) srcfpn (index - dstfpn.toNat * pagingPagesz)
    else (devices mpdst).storage[index]?

/-- The next cell of the source is still the old one: on one device the frames are apart. -/
theorem CellsCopied.source {count : Nat} {storage : List Byte}
    (hcopied : CellsCopied devices mpsrc srcfpn mpdst dstfpn count storage)
    (hframes : mpsrc = mpdst → srcfpn ≠ dstfpn) (hcount : count < pagingPagesz) :
    frameByte (Function.update devices mpdst { devices mpdst with storage := storage } mpsrc)
        srcfpn count = frameByte (devices mpsrc) srcfpn count := by
  by_cases hsame : mpsrc = mpdst
  · have hne : srcfpn.toNat ≠ dstfpn.toNat :=
      fun heq => hframes hsame (BitVec.eq_of_toNat_eq heq)
    subst hsame
    rw [Function.update_self]
    refine (hcopied.cells _).trans (if_neg ?_)
    unfold pagingPagesz at *
    omega
  · rw [Function.update_of_ne hsame]

omit [DecidableEq Ptr] in
/-- One more cell. -/
theorem CellsCopied.set {count : Nat} {storage : List Byte} {data : Byte}
    (hcopied : CellsCopied devices mpsrc srcfpn mpdst dstfpn count storage)
    (hdata : frameByte (devices mpsrc) srcfpn count = some data)
    (hroom : dstfpn.toNat * pagingPagesz + count < storage.length) :
    CellsCopied devices mpsrc srcfpn mpdst dstfpn (count + 1)
      (storage.set (dstfpn.toNat * pagingPagesz + count) data) := by
  refine ⟨List.length_set.trans hcopied.length, fun index => ?_⟩
  rw [List.getElem?_set]
  by_cases hindex : dstfpn.toNat * pagingPagesz + count = index
  · subst hindex
    rw [if_pos rfl, if_pos hroom, if_pos (by omega), Nat.add_sub_cancel_left, hdata]
  · rw [if_neg hindex, hcopied.cells index]
    by_cases hrange : dstfpn.toNat * pagingPagesz ≤ index ∧
        index < dstfpn.toNat * pagingPagesz + count
    · rw [if_pos hrange, if_pos (by omega)]
    · rw [if_neg hrange, if_neg (by omega)]

/-- Inside both devices the loop copies as many cells as it has run over. -/
theorem foldlM_swapCpCellAt (junk : Byte) (hsrc : (devices mpsrc).rdmflg = true)
    (hdst : (devices mpdst).rdmflg = true) (hsrcfpn : (devices mpsrc).HasFrame srcfpn)
    (hdstfpn : (devices mpdst).HasFrame dstfpn) (hframes : mpsrc = mpdst → srcfpn ≠ dstfpn)
    {count : Nat} (hcount : count ≤ pagingPagesz) :
    ∃ storage, CellsCopied devices mpsrc srcfpn mpdst dstfpn count storage ∧
      (List.range count).foldlM (swapCpCellAt junk mpsrc srcfpn mpdst dstfpn) devices =
        .ok (Function.update devices mpdst { devices mpdst with storage := storage }) := by
  induction count with
  | zero =>
      refine ⟨(devices mpdst).storage, ⟨rfl, fun index => ?_⟩, ?_⟩
      · rw [if_neg (by omega)]
      · exact congrArg Except.ok (Function.update_eq_self mpdst devices).symm
  | succ count ih =>
      obtain ⟨storage, hcopied, hfold⟩ := ih (by omega)
      have hsrcInside := hsrcfpn.inside
      have hdstInside := hdstfpn.inside
      have hlength := hcopied.length
      have hcell : count < pagingPagesz := hcount
      rw [Nat.add_mul, Nat.one_mul] at hsrcInside hdstInside
      obtain ⟨data, hdata⟩ : ∃ data, frameByte (devices mpsrc) srcfpn count = some data :=
        ⟨_, List.getElem?_eq_getElem (by omega)⟩
      have hroom : dstfpn.toNat * pagingPagesz + count < storage.length := by omega
      have hload := (hcopied.source hframes hcell).trans hdata
      obtain ⟨copied, hdevices⟩ : ∃ copied, Function.update devices mpdst
          { devices mpdst with storage := storage } = copied := ⟨_, rfl⟩
      have hcopiedDst : copied mpdst = { devices mpdst with storage := storage } := by
        rw [← hdevices, Function.update_self]
      have hrandom : ∀ mp, (devices mp).rdmflg = true → (copied mp).rdmflg = true := by
        intro mp hmp
        by_cases hsame : mp = mpdst
        · rw [hsame, hcopiedDst]
          exact hdst
        · rw [← hdevices, Function.update_of_ne hsame]
          exact hmp
      rw [hdevices] at hload hfold
      have hcopy := swapCpCellAt_of_lt junk (hrandom mpsrc hsrc) (hrandom mpdst hdst)
        (cell_toNat hsrcfpn.fits hcell) (cell_toNat hdstfpn.fits hcell) hload
        (by rw [hcopiedDst]; exact hroom)
      refine ⟨_, hcopied.set hdata hroom, ?_⟩
      rw [List.range_succ, List.foldlM_append, hfold, ok_bind, List.foldlM_cons, hcopy,
        hcopiedDst, ← hdevices, Function.update_idem]
      rfl

/-! ## The effect of a copy -/

/-- The destination frame has the bytes that the source frame had, and everything else is as
it was. -/
structure CopiesPage (mpsrc : Ptr) (srcfpn : Addr) (mpdst : Ptr) (dstfpn : Addr)
    (devices after : Ptr → MemphyStruct) : Prop where
  copied : ∀ cellidx, cellidx < pagingPagesz →
    frameByte (after mpdst) dstfpn cellidx = frameByte (devices mpsrc) srcfpn cellidx
  kept : ∀ mp index, ¬ (mp = mpdst ∧ index / pagingPagesz = dstfpn.toNat) →
    (after mp).storage[index]? = (devices mp).storage[index]?
  onlyStorage : ∀ mp, after mp = { devices mp with storage := (after mp).storage }
  length : ∀ mp, (after mp).storage.length = (devices mp).storage.length

theorem exists_copiesPage (junk : Byte) (hsrc : (devices mpsrc).rdmflg = true)
    (hdst : (devices mpdst).rdmflg = true) (hsrcfpn : (devices mpsrc).HasFrame srcfpn)
    (hdstfpn : (devices mpdst).HasFrame dstfpn) (hframes : mpsrc = mpdst → srcfpn ≠ dstfpn) :
    ∃ after, swapCpPageAt junk mpsrc srcfpn mpdst dstfpn devices = .ok after ∧
      CopiesPage mpsrc srcfpn mpdst dstfpn devices after := by
  obtain ⟨storage, ⟨hlength, hstorage⟩, hfold⟩ :=
    foldlM_swapCpCellAt junk hsrc hdst hsrcfpn hdstfpn hframes (Nat.le_refl pagingPagesz)
  refine ⟨_, hfold, ?_, ?_, ?_, ?_⟩
  · intro cellidx hcell
    have hcopied := hstorage (dstfpn.toNat * pagingPagesz + cellidx)
    rw [if_pos (by omega), Nat.add_sub_cancel_left] at hcopied
    rw [Function.update_self]
    exact hcopied
  · intro mp index hindex
    by_cases hmp : mp = mpdst
    · subst hmp
      rw [Function.update_self]
      refine (hstorage index).trans (if_neg ?_)
      rintro ⟨hlow, hhigh⟩
      refine hindex ⟨rfl, Nat.div_eq_of_lt_le hlow ?_⟩
      rw [Nat.succ_mul]
      exact hhigh
    · rw [Function.update_of_ne hmp]
  · intro mp
    by_cases hmp : mp = mpdst
    · subst hmp
      rw [Function.update_self]
    · rw [Function.update_of_ne hmp]
  · intro mp
    by_cases hmp : mp = mpdst
    · subst hmp
      rw [Function.update_self]
      exact hlength
    · rw [Function.update_of_ne hmp]

/-- Inside random access devices the copy gives the destination frame the bytes of the source
frame and changes no other byte. A second copy, to a frame of the first device, restores the
bytes there if the slot between has not been written. -/
theorem swapCpPageAt_exact_reversible (junk : Byte) (hsrc : (devices mpsrc).rdmflg = true)
    (hdst : (devices mpdst).rdmflg = true) (hsrcfpn : (devices mpsrc).HasFrame srcfpn)
    (hdstfpn : (devices mpdst).HasFrame dstfpn) (hframes : mpsrc = mpdst → srcfpn ≠ dstfpn) :
    ∃ after, swapCpPageAt junk mpsrc srcfpn mpdst dstfpn devices = .ok after ∧
      CopiesPage mpsrc srcfpn mpdst dstfpn devices after ∧
      ∀ (later : Ptr → MemphyStruct) (backfpn : Addr),
        (later mpsrc).rdmflg = true → (later mpdst).rdmflg = true →
        (later mpdst).HasFrame dstfpn → (later mpsrc).HasFrame backfpn →
        (mpdst = mpsrc → dstfpn ≠ backfpn) →
        (∀ cellidx, cellidx < pagingPagesz →
          frameByte (later mpdst) dstfpn cellidx = frameByte (after mpdst) dstfpn cellidx) →
        ∃ restored, swapCpPageAt junk mpdst dstfpn mpsrc backfpn later = .ok restored ∧
          CopiesPage mpdst dstfpn mpsrc backfpn later restored ∧
          ∀ cellidx, cellidx < pagingPagesz →
            frameByte (restored mpsrc) backfpn cellidx =
              frameByte (devices mpsrc) srcfpn cellidx := by
  obtain ⟨after, hcopy, hcopies⟩ := exists_copiesPage junk hsrc hdst hsrcfpn hdstfpn hframes
  refine ⟨after, hcopy, hcopies, ?_⟩
  intro later backfpn hlaterSrc hlaterDst hslot hback hapart hunwritten
  obtain ⟨restored, hrestore, hrestores⟩ :=
    exists_copiesPage junk hlaterDst hlaterSrc hslot hback hapart
  refine ⟨restored, hrestore, hrestores, fun cellidx hcell => ?_⟩
  rw [hrestores.copied cellidx hcell, hunwritten cellidx hcell, hcopies.copied cellidx hcell]

/-- A device of two frames. -/
def twoFrames : MemphyStruct where
  storage := List.replicate pagingPagesz 7 ++ List.replicate pagingPagesz 9
  maxsz := 512
  rdmflg := true
  cursor := 0
  freeFpList := { nodes := [], stop := .null }

theorem twoFrames_hasFrame {fpn : Addr} (hfpn : fpn.toNat < 2) : twoFrames.HasFrame fpn := by
  have hlength : twoFrames.storage.length = 2 * pagingPagesz := by
    unfold twoFrames
    rw [List.length_append, List.length_replicate, List.length_replicate, Nat.two_mul]
  refine ⟨?_, by omega⟩
  rw [hlength]
  exact Nat.mul_le_mul_right _ hfpn

/-- From the first frame of a device to its second one, and back. -/
theorem swapCpPageAt_exact_reversible_within :
    ∃ after restored, swapCpPageAt 0 () 0 () 1 (fun _ => twoFrames) = .ok after ∧
      frameByte (after ()) 1 255 = some 7 ∧
      swapCpPageAt 0 () 1 () 0 after = .ok restored ∧ frameByte (restored ()) 0 255 = some 7 := by
  obtain ⟨after, hcopy, hcopies, hback⟩ :=
    @swapCpPageAt_exact_reversible Unit _ () () 0 1 (fun _ => twoFrames) 0 rfl rfl
      (twoFrames_hasFrame (by decide)) (twoFrames_hasFrame (by decide)) (fun _ => by decide)
  have hrandom : (after ()).rdmflg = true := by
    rw [hcopies.onlyStorage ()]
    rfl
  have hframe : ∀ {fpn : Addr}, fpn.toNat < 2 → (after ()).HasFrame fpn := by
    intro fpn hfpn
    obtain ⟨hinside, hfits⟩ := twoFrames_hasFrame hfpn
    exact ⟨(hcopies.length ()).symm ▸ hinside, hfits⟩
  obtain ⟨restored, hrestore, -, hbytes⟩ := hback after 0 hrandom hrandom (hframe (by decide))
    (hframe (by decide)) (fun _ => by decide) (fun _ _ => rfl)
  have hseven : frameByte twoFrames 0 255 = some 7 := by decide +kernel
  exact ⟨after, restored, hcopy, (hcopies.copied 255 (by decide)).trans hseven, hrestore,
    (hbytes 255 (by decide)).trans hseven⟩

end SimpleOs
