import SimpleOs.Foundation.Granules
import SimpleOs.Kernel.AreaRuns
import SimpleOs.Kernel.Residents

/-! # The pages that growth asks for

`inc_vma_limit` asks for pages from the one of the old end on, and for as many as the size
needs. The count passes through an `int`. Since the break never moves, the size is the new
end and not what is added, so the pages of one growth after another overlap.
-/

namespace SimpleOs

open Granules

namespace MmStruct

/-- What `vm_map_ram` is asked to map. -/
structure MapRequest where
  mapstart : Addr
  incpgnum : Int
  deriving DecidableEq

/-- `inc_vma_limit` up to its call of `vm_map_ram`, which it does not reach when it fails. -/
def incRequest (mm : MmStruct) (vmaid : Int) (incSz : Addr) :
    Except Fault (Option MapRequest × MmStruct) := do
  let incAmt := paging64PageAlignsz incSz
  let incnumpage := toCInt (incAmt / paging64Pagesz)
  let area ← mm.getVmAreaNodeAtBrk vmaid incSz
  let curVma ← mm.getVmaByNum vmaid
  let valid ← mm.validateOverlapVmArea vmaid area.rgStart area.rgEnd
  if valid < 0 then return (none, mm)
  else
    let vma ← mm.vmaAt curVma
    let oldEnd := vma.vmEnd
    return (some ⟨oldEnd, incnumpage⟩, mm.setVmaAt curVma { vma with vmEnd := area.rgEnd })

/-- The page is one of those that `vmap_page_range` maps for the request, given the frames. -/
def MapRequest.Contains (request : MapRequest) (page : Addr) : Prop :=
  ∃ pgit < request.incpgnum.toNat, page = rangePage request.mapstart pgit

variable {mm next : MmStruct}

/-- The rest of `inc_vma_limit`. -/
theorem incVmaLimit_eq (mm : MmStruct) (vmaid : Int) (incSz : Addr) :
    mm.incVmaLimit vmaid incSz =
      mm.incRequest vmaid incSz >>= fun (request, mm) =>
        match request with
        | none => .ok (-1, mm)
        | some request =>
            mm.vmMapRam request.mapstart request.incpgnum >>= fun mm => .ok (0, mm) := by
  unfold incVmaLimit incRequest
  cases mm.getVmAreaNodeAtBrk vmaid incSz with
  | error fault => rfl
  | ok area =>
      simp only [ok_bind]
      cases mm.getVmaByNum vmaid with
      | error fault => rfl
      | ok curVma =>
          simp only [ok_bind]
          cases mm.validateOverlapVmArea vmaid area.rgStart area.rgEnd with
          | error fault => rfl
          | ok valid =>
              simp only [ok_bind]
              split
              next => rfl
              next =>
                cases mm.vmaAt curVma with
                | error fault => rfl
                | ok vma => rfl

/-- Given the frames, the pages of the request are mapped and listed. -/
theorem mem_fifoPgn_vmapPageRange {request : MapRequest} {frames : List Addr}
    {retRg : VmRgStruct} (hframes : request.incpgnum.toNat ≤ frames.length)
    (hmap : mm.vmapPageRange request.mapstart request.incpgnum frames = .ok (next, retRg))
    (page : Addr) : page ∈ next.fifoPgn ↔ request.Contains page ∨ page ∈ mm.fifoPgn := by
  rw [fifoPgn_mapPages _ (vmapPageRange_eq_ok hmap), map_fst_rangePages, List.length_take,
    Nat.min_eq_left hframes, List.mem_append, List.mem_reverse, List.mem_map]
  unfold MapRequest.Contains
  simp only [List.mem_range, eq_comm]

/-! ## From the break at 0 -/

/-- The only area is area 0, with its break where `init_mm` put it. -/
def AtBreak (mm : MmStruct) : Prop :=
  ∃ vma, mm.mmap = [vma] ∧ vma.vmId = 0 ∧ vma.sbrk = 0

theorem atBreak_initMm (garbage : ListEnd) : (initMm garbage).AtBreak :=
  ⟨_, rfl, rfl, rfl⟩

/-- It stays there when regions are allocated and freed. -/
theorem atBreak_of_anchored {Proc : Type} {growth : Growth Proc}
    (hanchored : RegionCall.Anchored growth) : growth.krnl.mm.AtBreak := by
  obtain ⟨vma, hmmap, -, hsbrk⟩ := hanchored.start
  obtain ⟨other, hother, hid, -⟩ := hanchored.ready.unmapped.area
  obtain rfl : vma = other := List.head_eq_of_cons_eq (hmmap.symm.trans hother)
  exact ⟨vma, hmmap, hid, hsbrk⟩

/-- The `incnumpage` of a size. -/
def incnumpage (incSz : Addr) : Int := toCInt (paging64PageAlignsz incSz / paging64Pagesz)

/-- The request starts at the old end, and the new end is the size. -/
theorem AtBreak.incRequest (hbreak : mm.AtBreak) {incSz : Addr} (hsize : incSz ≠ 0) :
    ∃ next, mm.incRequest 0 incSz = .ok (some ⟨mm.areaEnd, incnumpage incSz⟩, next) ∧
      next.AtBreak ∧ next.areaEnd = incSz := by
  obtain ⟨vma, hmmap, hid, hsbrk⟩ := hbreak
  have hend : vma.sbrk + incSz = incSz := by
    rw [hsbrk]
    bv_omega
  have hvalid := validateOverlapVmArea_of_break hmmap hid hsbrk hsize
  rw [hend] at hvalid
  refine ⟨{ mm with mmap := [{ vma with vmEnd := incSz }] }, ?_, ⟨_, rfl, hid, hsbrk⟩, rfl⟩
  unfold MmStruct.incRequest getVmAreaNodeAtBrk
  simp only [getVmaByNum_of_single hmmap hid, ok_bind, vmaAt_of_single hmmap,
    setVmaAt_of_single hmmap, pure_eq_ok, hvalid, hend, areaEnd_of_single hmmap]
  rfl

/-- It stays there when the area grows, and when that fails. -/
theorem AtBreak.incRequest_eq_ok (hbreak : mm.AtBreak) {incSz : Addr}
    {request : Option MapRequest} (hrequest : mm.incRequest 0 incSz = .ok (request, next)) :
    next.AtBreak := by
  by_cases hsize : incSz = 0
  · obtain ⟨vma, hmmap, hid, hsbrk⟩ := hbreak
    subst hsize
    have hvalid : mm.validateOverlapVmArea 0 vma.sbrk (vma.sbrk + 0) = .ok (-1) := by
      have hempty : vma.sbrk ≥ vma.sbrk + 0 := by bv_omega
      unfold validateOverlapVmArea
      rw [if_pos hempty]
    unfold MmStruct.incRequest getVmAreaNodeAtBrk at hrequest
    simp only [getVmaByNum_of_single hmmap hid, ok_bind, vmaAt_of_single hmmap, pure_eq_ok,
      hvalid] at hrequest
    obtain ⟨-, rfl⟩ := Prod.mk.inj (Except.ok.inj hrequest)
    exact ⟨vma, hmmap, hid, hsbrk⟩
  · obtain ⟨grown, hgrown, hbreak, -⟩ := hbreak.incRequest hsize
    obtain ⟨-, rfl⟩ := Prod.mk.inj (Except.ok.inj (hgrown.symm.trans hrequest))
    exact hbreak

/-! ## The count -/

/-- The count of a size, before it goes into an `int`. -/
theorem toNat_alignedCount {incSz : Addr} (hfit : incSz.toNat ≤ 2 ^ 57) :
    (paging64PageAlignsz incSz / paging64Pagesz).toNat = incSz.toNat ⌈/⌉ 4096 := by
  have hpagesz : BitVec.toNat paging64Pagesz = 4096 := rfl
  rw [Nat.ceilDiv_eq_add_pred_div]
  unfold paging64PageAlignsz divRoundUp
  simp only [BitVec.toNat_udiv, BitVec.toNat_mul, BitVec.toNat_sub, BitVec.toNat_add, hpagesz]
  have hone : BitVec.toNat (1 : Addr) = 1 := rfl
  omega

/-- Through the `int` a count stays the same exactly below the sign bit. -/
theorem toNat_toCInt (x : Addr) :
    (toCInt x).toNat = if x.toNat % 2 ^ 32 < 2 ^ 31 then x.toNat % 2 ^ 32 else 0 := by
  unfold toCInt
  rw [BitVec.toInt_eq_toNat_cond, BitVec.toNat_setWidth]
  split <;> split <;> omega

/-- The count as a function of the size. -/
def pageCount (size : Nat) : Nat := (incnumpage (BitVec.ofNat 64 size)).toNat

theorem pageCount_toNat (incSz : Addr) : pageCount incSz.toNat = (incnumpage incSz).toNat := by
  unfold pageCount
  rw [BitVec.ofNat_toNat, BitVec.setWidth_eq]

theorem pageCount_lt (size : Nat) : pageCount size < 2 ^ 31 := by
  unfold pageCount incnumpage
  rw [toNat_toCInt]
  split <;> omega

/-- Counts that fit an `int` are right. A count that does not is too low, even beside as many
pages as fit. -/
theorem limited_pageCount {size : Nat} (hfit : size ≤ 2 ^ 57) :
    Limited 4096 (2 ^ 31) pageCount size := by
  have hsize : (BitVec.ofNat 64 size).toNat = size := by
    rw [BitVec.toNat_ofNat]
    omega
  have hcount : pageCount size =
      if size ⌈/⌉ 4096 % 2 ^ 32 < 2 ^ 31 then size ⌈/⌉ 4096 % 2 ^ 32 else 0 := by
    unfold pageCount incnumpage
    rw [toNat_toCInt, toNat_alignedCount (by omega), hsize]
  constructor
  · intro hlt
    rw [hcount]
    split <;> omega
  · intro hover start hstart
    rw [hcount]
    split <;> omega

/-! ## Bytes and pages -/

/-- The request asks for the pages of all bytes from the old end to the new one. -/
def MapRequest.CoversBytes (request : MapRequest) (oldEnd newEnd : Addr) : Prop :=
  ∀ byte : Addr, oldEnd ≤ byte → byte < newEnd →
    request.Contains (byte >>> paging64AddrPtShift)

/-- The request asks for the pages with the numbers of the extent. -/
structure MapRequest.Refines (request : MapRequest) (extent : Extent) : Prop where
  contains_iff : ∀ page : Addr, request.Contains page ↔ extent.Has page.toNat
  fits : extent.start + extent.count ≤ 2 ^ 64

theorem toNat_page (addr : Addr) : (addr >>> paging64AddrPtShift).toNat = addr.toNat / 4096 := by
  unfold paging64AddrPtShift
  rw [BitVec.toNat_ushiftRight, Nat.shiftRight_eq_div_pow]

/-- Below the end of the address space the request is an extent. -/
theorem refines_ask {mapstart : Addr} (hfit : mapstart.toNat ≤ 2 ^ 57) (incSz : Addr) :
    (MapRequest.mk mapstart (incnumpage incSz)).Refines
      (ask 4096 pageCount mapstart.toNat incSz.toNat) := by
  have hcount := pageCount_lt incSz.toNat
  have hpage : ∀ pgit < pageCount incSz.toNat,
      (rangePage mapstart pgit).toNat = mapstart.toNat / 4096 + pgit := by
    intro pgit hpgit
    rw [rangePage_toNat, toNat_page]
    rw [toNat_page]
    omega
  refine { contains_iff := fun page => ?_, fits := ?_ }
  · unfold MapRequest.Contains
    rw [has_ask, ← pageCount_toNat]
    constructor
    · rintro ⟨pgit, hpgit, rfl⟩
      rw [hpage pgit hpgit]
      omega
    · rintro ⟨hlow, hhigh⟩
      have hpgit : page.toNat - mapstart.toNat / 4096 < pageCount incSz.toNat := by omega
      refine ⟨_, hpgit, ?_⟩
      apply BitVec.eq_of_toNat_eq
      rw [hpage _ hpgit]
      omega
  · change mapstart.toNat / 4096 + pageCount incSz.toNat ≤ 2 ^ 64
    omega

theorem MapRequest.Refines.coversBytes_iff {request : MapRequest} {extent : Extent}
    (hrefines : request.Refines extent) (oldEnd newEnd : Addr) :
    request.CoversBytes oldEnd newEnd ↔ Covers 4096 extent oldEnd.toNat newEnd.toNat := by
  unfold MapRequest.CoversBytes Covers
  constructor
  · intro hcovers byte hlow hhigh
    have hbyte : (BitVec.ofNat 64 byte).toNat = byte := by
      rw [BitVec.toNat_ofNat]
      have hlt := newEnd.isLt
      omega
    have hpage := hcovers (BitVec.ofNat 64 byte) (by rw [BitVec.le_def, hbyte]; exact hlow)
      (by rw [BitVec.lt_def, hbyte]; exact hhigh)
    rwa [hrefines.contains_iff, toNat_page, hbyte] at hpage
  · intro hcovers byte hlow hhigh
    rw [hrefines.contains_iff, toNat_page]
    exact hcovers byte.toNat hlow hhigh

/-- The pages that a call asks for cover the new bytes. -/
def CoversGrowth (mm : MmStruct) (incSz : Addr) : Prop :=
  ∃ request next, mm.incRequest 0 incSz = .ok (some request, next) ∧
    request.CoversBytes mm.areaEnd next.areaEnd

/-- A call covers the new bytes exactly when there are none, or the count, narrowed to `int`,
still reaches their last page. -/
theorem AtBreak.coversGrowth_iff (hbreak : mm.AtBreak) {incSz : Addr} (hpos : incSz ≠ 0)
    (hfit : incSz.toNat ≤ 2 ^ 57) :
    mm.CoversGrowth incSz ↔ incSz ≤ mm.areaEnd ∨
      incSz.toNat ⌈/⌉ 4096 ≤ mm.areaEnd.toNat / 4096 + (incnumpage incSz).toNat := by
  obtain ⟨next, hrequest, -, hnewEnd⟩ := hbreak.incRequest hpos
  have hcovers : mm.CoversGrowth incSz ↔
      (MapRequest.mk mm.areaEnd (incnumpage incSz)).CoversBytes mm.areaEnd incSz := by
    constructor
    · rintro ⟨request, final, hcall, hbytes⟩
      obtain ⟨hsame, rfl⟩ := Prod.mk.inj (Except.ok.inj (hrequest.symm.trans hcall))
      obtain rfl := Option.some.inj hsame
      rwa [hnewEnd] at hbytes
    · intro hbytes
      exact ⟨_, next, hrequest, hnewEnd.symm ▸ hbytes⟩
  rw [hcovers]
  by_cases hle : incSz ≤ mm.areaEnd
  · refine iff_of_true (fun byte hlow hhigh => ?_) (Or.inl hle)
    bv_omega
  · have hend : mm.areaEnd.toNat ≤ 2 ^ 57 := by
      rw [BitVec.le_def] at hle
      omega
    rw [(refines_ask hend incSz).coversBytes_iff, covers_iff (by decide), pageCount_toNat,
      BitVec.le_def]

theorem fresh_iff {requests : List MapRequest} {extents : List Extent} {request : MapRequest}
    {extent : Extent} (hrefines : request.Refines extent)
    (hasked : List.Forall₂ MapRequest.Refines requests extents) :
    (∀ earlier ∈ requests, ∀ page, request.Contains page → ¬ earlier.Contains page) ↔
      Fresh extents extent := by
  unfold Fresh
  induction hasked with
  | nil => simp
  | cons hearlier hrest ih =>
      rw [List.forall_mem_cons, List.forall_mem_cons, ih]
      refine and_congr_left fun _ => ?_
      constructor
      · intro hfresh granule hgranule hhas
        have hpage : (BitVec.ofNat 64 granule).toNat = granule := by
          have hfits := hrefines.fits
          have hlt := hgranule.2
          rw [BitVec.toNat_ofNat]
          omega
        apply hfresh (BitVec.ofNat 64 granule)
        · rwa [hrefines.contains_iff, hpage]
        · rwa [hearlier.contains_iff, hpage]
      · intro hfresh page hcontains hhas
        exact hfresh page.toNat ((hrefines.contains_iff page).mp hcontains)
          ((hearlier.contains_iff page).mp hhas)

end MmStruct

/-! ## Runs -/

/-- A descriptor, with what was asked for so far. -/
structure Grown where
  mm : MmStruct
  asked : List MmStruct.MapRequest

namespace Grown

def start (garbage : ListEnd) : Grown where
  mm := initMm garbage
  asked := []

/-- A call of `inc_vma_limit`. -/
def grow (grown : Grown) (incSz : Addr) : Option Grown :=
  (grown.mm.incRequest 0 incSz).toOption.map fun (request, mm) =>
    { mm := mm, asked := request.toList ++ grown.asked }

/-- A call asks for the pages of all new bytes, and for none that was asked for before. -/
def Sound (grown : Grown) (incSz : Addr) : Prop :=
  ∃ request next, grown.mm.incRequest 0 incSz = .ok (some request, next) ∧
    request.CoversBytes grown.mm.areaEnd next.areaEnd ∧
    ∀ earlier ∈ grown.asked, ∀ page, request.Contains page → ¬ earlier.Contains page

open MmStruct

/-- Whatever was asked for before, the break is where it was. -/
theorem atBreak_run {garbage : ListEnd} {sizes : List Addr} {grown : Grown}
    (hrun : Runs.run grow (start garbage) sizes = some grown) : grown.mm.AtBreak := by
  refine Runs.run_invariant (fun grown => grown.mm.AtBreak) (fun _ => True) ?_
    (fun _ _ => trivial) (atBreak_initMm garbage) hrun
  intro grown incSz next _ hbreak hgrow
  obtain ⟨⟨request, mm⟩, hrequest, rfl⟩ := Option.map_eq_some_iff.mp hgrow
  exact hbreak.incRequest_eq_ok (Runs.toOption_eq_some_iff.mp hrequest)

/-- A run is sound exactly when its extents are. -/
theorem sound_taken_iff {grown : Grown} {extents : List Extent} {sizes : List Addr}
    (hbreak : grown.mm.AtBreak) (hend : grown.mm.areaEnd.toNat ≤ 2 ^ 57)
    (hasked : List.Forall₂ MapRequest.Refines grown.asked extents)
    (hsizes : ∀ incSz ∈ sizes, 0 < incSz.toNat ∧ incSz.toNat ≤ 2 ^ 57) :
    (∀ move ∈ Runs.taken grow grown sizes, move.1.Sound move.2) ↔
      Granules.Sound 4096 pageCount grown.mm.areaEnd.toNat extents
        (sizes.map BitVec.toNat) := by
  induction sizes generalizing grown extents with
  | nil => simp [Runs.taken, Granules.Sound]
  | cons incSz rest ih =>
      rw [List.forall_mem_cons] at hsizes
      obtain ⟨⟨hpos, hfit⟩, hrest⟩ := hsizes
      have hsize : incSz ≠ 0 := by
        rintro rfl
        exact absurd hpos (by decide)
      obtain ⟨next, hrequest, hnextBreak, hnextEnd⟩ := hbreak.incRequest hsize
      have hrefines := refines_ask hend incSz
      have hgrow : grow grown incSz = some
          { mm := next, asked := ⟨grown.mm.areaEnd, incnumpage incSz⟩ :: grown.asked } := by
        unfold grow
        rw [hrequest]
        rfl
      have hsound : grown.Sound incSz ↔
          Covers 4096 (ask 4096 pageCount grown.mm.areaEnd.toNat incSz.toNat)
              grown.mm.areaEnd.toNat incSz.toNat ∧
            Fresh extents (ask 4096 pageCount grown.mm.areaEnd.toNat incSz.toNat) := by
        rw [← hrefines.coversBytes_iff, ← fresh_iff hrefines hasked]
        constructor
        · rintro ⟨request, final, hcall, hcovers, hfresh⟩
          obtain ⟨hsame, rfl⟩ := Prod.mk.inj (Except.ok.inj (hrequest.symm.trans hcall))
          obtain rfl := Option.some.inj hsame
          rw [hnextEnd] at hcovers
          exact ⟨hcovers, hfresh⟩
        · rintro ⟨hcovers, hfresh⟩
          exact ⟨_, next, hrequest, hnextEnd.symm ▸ hcovers, hfresh⟩
      have hlater : next.areaEnd.toNat ≤ 2 ^ 57 := by
        rw [hnextEnd]
        exact hfit
      have htail := @ih
        { mm := next, asked := ⟨grown.mm.areaEnd, incnumpage incSz⟩ :: grown.asked }
        _ hnextBreak hlater (.cons hrefines hasked) hrest
      simp only [Runs.taken, hgrow, List.mem_cons, forall_eq_or_imp, List.map_cons]
      rw [hsound, htail, hnextEnd]
      exact and_assoc

/-- Growth covers the new bytes unless the count is cut off by the `int`. A run of growths
never asks for a page twice exactly when there is at most one, or a second one after one
of whole pages. -/
theorem pageCover_iff (garbage : ListEnd) :
    (∀ mm : MmStruct, mm.AtBreak → ∀ incSz : Addr, 0 < incSz.toNat → incSz.toNat ≤ 2 ^ 57 →
      (mm.CoversGrowth incSz ↔ incSz ≤ mm.areaEnd ∨
        incSz.toNat ⌈/⌉ 4096 ≤ mm.areaEnd.toNat / 4096 + (incnumpage incSz).toNat)) ∧
    (∀ sizes : List Addr, (∀ incSz ∈ sizes, 0 < incSz.toNat ∧ incSz.toNat ≤ 2 ^ 57) →
      ((∀ move ∈ Runs.taken grow (start garbage) sizes, move.1.Sound move.2) ↔
        (∀ incSz ∈ sizes, incSz.toNat ⌈/⌉ 4096 < 2 ^ 31) ∧
          (sizes.length ≤ 1 ∨
            ∃ first second, sizes = [first, second] ∧ 4096 ∣ first.toNat))) := by
  constructor
  · intro mm hbreak incSz hpos hfit
    refine hbreak.coversGrowth_iff ?_ hfit
    rintro rfl
    exact absurd hpos (by decide)
  · intro sizes hsizes
    have hend : (start garbage).mm.areaEnd.toNat = 0 := rfl
    have hruns := @sound_taken_iff (start garbage) [] sizes (atBreak_initMm garbage)
      (by rw [hend]; exact Nat.zero_le _) .nil hsizes
    rw [hend] at hruns
    rw [hruns, sound_iff (by decide) (by decide : 0 < 2 ^ 31)]
    · simp only [List.mem_map, forall_exists_index, and_imp, forall_apply_eq_imp_iff₂,
        List.length_map]
      refine and_congr_right fun _ => or_congr_right ?_
      constructor
      · rintro ⟨first, second, hmap, haligned⟩
        match sizes, hmap with
        | [lower, upper], hmap =>
            cases hmap
            exact ⟨lower, upper, rfl, haligned⟩
      · rintro ⟨first, second, rfl, haligned⟩
        exact ⟨_, _, rfl, haligned⟩
    · intro size hsize
      obtain ⟨incSz, hincSz, rfl⟩ := List.mem_map.mp hsize
      exact (hsizes incSz hincSz).1
    · intro size hsize
      obtain ⟨incSz, hincSz, rfl⟩ := List.mem_map.mp hsize
      exact limited_pageCount (hsizes incSz hincSz).2

/-- From nothing to 100 bytes, and from one page to a page and a half. -/
theorem pageCover_iff_aligned :
    (initMm .null).CoversGrowth 100 ∧
      ∀ move ∈ Runs.taken grow (start .null) [0x1000, 0x1800], move.1.Sound move.2 := by
  obtain ⟨hcovers, hruns⟩ := pageCover_iff .null
  constructor
  · exact (hcovers (initMm .null) (atBreak_initMm .null) 100 (by decide) (by decide)).mpr
      (Or.inr (by decide))
  · exact (hruns [0x1000, 0x1800] (by simp)).mpr
      ⟨by simp [Nat.ceilDiv_eq_add_pred_div], Or.inr ⟨0x1000, 0x1800, rfl, by decide⟩⟩

/-- The first growth to 100 bytes asks for page 0, and so does the next one, to 5000 bytes.
A first growth to 2 ^ 43 bytes asks for no page. -/
theorem not_pageCover :
    (∃ grown final, Runs.run grow (start .null) [100] = some grown ∧
      grow grown 5000 = some final ∧ final.asked = [⟨100, 2⟩, ⟨0, 1⟩] ∧
      (∀ request ∈ final.asked, request.Contains 0) ∧ ¬ grown.Sound 5000) ∧
    ¬ (initMm .null).CoversGrowth 0x80000000000 := by
  constructor
  · have hfirst : (Runs.run grow (start .null) [100]).map asked = some [⟨0, 1⟩] := by
      decide +kernel
    obtain ⟨grown, hrun, hasked⟩ := Option.map_eq_some_iff.mp hfirst
    have hend : grown.mm.areaEnd = 100 := by
      have hends : (Runs.run grow (start .null) [100]).map (fun grown => grown.mm.areaEnd) =
          some 100 := by decide +kernel
      rw [hrun] at hends
      exact Option.some.inj hends
    obtain ⟨next, hrequest, -, -⟩ := (atBreak_run hrun).incRequest (by decide : (5000 : Addr) ≠ 0)
    have hcount : incnumpage 5000 = 2 := by decide +kernel
    rw [hend, hcount] at hrequest
    have hboth : ∀ request ∈ [MapRequest.mk 100 2, MapRequest.mk 0 1], request.Contains 0 := by
      intro request hmem
      refine ⟨0, ?_, ?_⟩
      · simp only [List.mem_cons, List.not_mem_nil, or_false] at hmem
        rcases hmem with rfl | rfl <;> decide
      · simp only [List.mem_cons, List.not_mem_nil, or_false] at hmem
        rcases hmem with rfl | rfl <;> decide
    have hsecond : grow grown 5000 = some { mm := next, asked := [⟨100, 2⟩, ⟨0, 1⟩] } := by
      unfold grow
      rw [hrequest, hasked]
      rfl
    refine ⟨grown, _, hrun, hsecond, rfl, hboth, ?_⟩
    rintro ⟨request, after, hcall, -, hfresh⟩
    obtain ⟨hsame, -⟩ := Prod.mk.inj (Except.ok.inj (hrequest.symm.trans hcall))
    obtain rfl := Option.some.inj hsame
    rw [hasked] at hfresh
    exact hfresh _ List.mem_cons_self 0 (hboth _ (by simp)) (hboth _ (by simp))
  · rintro ⟨request, next, hcall, hcovers⟩
    obtain ⟨after, hrequest, -, hafter⟩ :=
      (atBreak_initMm .null).incRequest (by decide : (0x80000000000 : Addr) ≠ 0)
    obtain ⟨hsame, rfl⟩ := Prod.mk.inj (Except.ok.inj (hrequest.symm.trans hcall))
    obtain rfl := Option.some.inj hsame
    rw [hafter] at hcovers
    obtain ⟨pgit, hpgit, -⟩ := hcovers 0 (by decide) (by decide)
    have hcount : incnumpage 0x80000000000 = -2147483648 := by decide +kernel
    rw [hcount] at hpgit
    exact absurd hpgit (Nat.not_lt_zero pgit)

end Grown

end SimpleOs
