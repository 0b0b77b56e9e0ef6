import Mathlib.Data.List.Nodup
import SimpleOs.Memory.Entry
import SimpleOs.Memory.Memphy
import SimpleOs.Memory.Vm

/-! # Frames for a range of pages

`alloc_pages_range` takes frames from RAM, and gives them back when there are not enough.
`vmap_page_range` maps frames to the pages from an address on and lists the pages for a
later replacement.
-/

namespace SimpleOs

/-! ## Getting frames -/

/-- The loop of `alloc_pages_range`, with the frames taken so far. Without a free frame it
puts them back one by one. -/
def allocFrames (mram : MemphyStruct) (taken : List Addr) :
    Nat → Except Fault (Addr × Option (List Addr) × MemphyStruct)
  | 0 => .ok (0, some taken, mram)
  | remaining + 1 => do
      let (fpn, mram) ← mram.getFreefp
      match fpn with
      | none => return (-1, none, taken.foldl MemphyStruct.putFreefp mram)
      | some fpn => allocFrames mram (taken ++ [fpn]) remaining

/-- `alloc_pages_range`: its status, `*frm_lst` and the RAM device. -/
def allocPagesRange (mram : MemphyStruct) (reqPgnum : Int) (frmLst : List Addr) :
    Except Fault (Addr × List Addr × MemphyStruct) :=
  if reqPgnum ≤ 0 then .ok (0, frmLst, mram)
  else do
    let (status, frames, mram) ← allocFrames mram [] reqPgnum.toNat
    return (status, frames.getD frmLst, mram)

/-- The device with other frames on its list. -/
def MemphyStruct.withFree (mp : MemphyStruct) (nodes : List Addr) : MemphyStruct :=
  { mp with freeFpList := { nodes := nodes, stop := .null } }

namespace MemphyStruct

@[simp] theorem withFree_withFree (mp : MemphyStruct) (nodes other : List Addr) :
    (mp.withFree nodes).withFree other = mp.withFree other := rfl

@[simp] theorem getFreefp_withFree_nil (mp : MemphyStruct) :
    (mp.withFree []).getFreefp = .ok (none, mp.withFree []) := rfl

@[simp] theorem getFreefp_withFree_cons (mp : MemphyStruct) (fpn : Addr) (rest : List Addr) :
    (mp.withFree (fpn :: rest)).getFreefp = .ok (some fpn, mp.withFree rest) := rfl

/-- Frames that are put back one by one end up in reverse. -/
theorem foldl_putFreefp (mp : MemphyStruct) (nodes taken : List Addr) :
    taken.foldl putFreefp (mp.withFree nodes) = mp.withFree (taken.reverse ++ nodes) := by
  induction taken generalizing nodes with
  | nil => rfl
  | cons fpn rest ih =>
      rw [List.foldl_cons, List.reverse_cons, List.append_assoc]
      exact ih (fpn :: nodes)

end MemphyStruct

/-- What the loop does with a list of frames. -/
theorem allocFrames_withFree (mram : MemphyStruct) (remaining : Nat) (taken nodes : List Addr) :
    allocFrames (mram.withFree nodes) taken remaining =
      if remaining ≤ nodes.length then
        .ok (0, some (taken ++ nodes.take remaining), mram.withFree (nodes.drop remaining))
      else .ok (-1, none, mram.withFree (taken ++ nodes).reverse) := by
  induction remaining generalizing taken nodes with
  | zero => simp [allocFrames]
  | succ remaining ih =>
      unfold allocFrames
      cases nodes with
      | nil => simp [MemphyStruct.foldl_putFreefp]
      | cons fpn rest => simp [ih]

/-- All or nothing: with enough frames the first ones are handed out, and otherwise the list
has all its frames back. -/
theorem allocPagesRange_all_or_nothing (mram : MemphyStruct) (nodes : List Addr)
    (reqPgnum : Int) (hreq : 0 < reqPgnum) (frmLst : List Addr) :
    ∃ status frames after,
      allocPagesRange (mram.withFree nodes) reqPgnum frmLst = .ok (status, frames, after) ∧
        (status = 0 ↔ reqPgnum ≤ nodes.length) ∧
        (status = 0 → frames = nodes.take reqPgnum.toNat ∧
          after = mram.withFree (nodes.drop reqPgnum.toNat)) ∧
        (status ≠ 0 → status = -1 ∧ frames = frmLst ∧
          ∃ back, after = mram.withFree back ∧ back.Perm nodes) := by
  have hloop := allocFrames_withFree mram reqPgnum.toNat [] nodes
  unfold allocPagesRange
  rw [if_neg (by omega), hloop]
  split
  next henough =>
    refine ⟨0, _, _, rfl, ?_, ?_, ?_⟩
    · simp only [true_iff]
      omega
    · simp
    · simp
  next hfew =>
    refine ⟨-1, _, _, rfl, ?_, ?_, fun _ => ⟨rfl, rfl, _, rfl, ?_⟩⟩
    · refine iff_of_false (by decide) ?_
      omega
    · intro hzero
      exact absurd hzero (by decide)
    · exact List.reverse_perm _

/-- Three frames are asked for, and there are two. -/
theorem allocPagesRange_all_or_nothing_two :
    ∃ back, allocPagesRange ⟨[], 512, true, 0, ⟨[4, 9], .null⟩⟩ 3 [] =
        .ok (-1, [], ⟨[], 512, true, 0, ⟨back, .null⟩⟩) ∧ back.Perm [4, 9] := by
  obtain ⟨status, frames, after, hcall, hzero, -, hfailed⟩ :=
    allocPagesRange_all_or_nothing ⟨[], 512, true, 0, ⟨[], .null⟩⟩ [4, 9] 3 (by decide) []
  have hstatus : status ≠ 0 := fun h => absurd (hzero.mp h) (by decide)
  obtain ⟨rfl, rfl, back, rfl, hperm⟩ := hfailed hstatus
  exact ⟨back, hcall, hperm⟩

/-! ## Mapping them -/

namespace MmStruct

/-- The page that the loop of `vmap_page_range` computes in a round. -/
def rangePage (addr : Addr) (pgit : Nat) : Addr :=
  (addr + BitVec.ofNat 64 pgit * paging64Pagesz) >>> paging64AddrPtShift

/-- A round of the loop, less its counters. -/
def mapPage (mm : MmStruct) (pgn fpn : Addr) : Except Fault MmStruct := do
  let mm ← mm.pteSetFpn pgn fpn
  return { mm with fifoPgn := pgn :: mm.fifoPgn }

/-- Rounds with given pages and frames. -/
def mapPages (mm : MmStruct) (pages : List (Addr × Addr)) : Except Fault MmStruct :=
  pages.foldlM (fun mm page => mm.mapPage page.1 page.2) mm

/-- The pages of a range from a round on, with the frames for them. -/
def rangePages (addr : Addr) (pgit : Nat) (frames : List Addr) : List (Addr × Addr) :=
  (frames.zipIdx pgit).map fun (fpn, pgit) => (rangePage addr pgit, fpn)

variable {mm next : MmStruct}

theorem mapFrames_cons {addr : Addr} {pgnum : Int} {retRg : VmRgStruct} {pgit : Nat}
    (hround : (pgit : Int) < pgnum) (fpn : Addr) (rest : List Addr) :
    mapFrames addr pgnum mm retRg pgit (fpn :: rest) =
      mm.mapPage (rangePage addr pgit) fpn >>= fun mm =>
        mapFrames addr pgnum mm { retRg with rgEnd := retRg.rgEnd + paging64Pagesz }
          (pgit + 1) rest := by
  rw [mapFrames, if_pos hround]
  unfold mapPage rangePage
  cases hset : mm.pteSetFpn _ fpn <;> simp [hset]

/-- One more page behind the end of the mapped region. -/
theorem rgEnd_succ (rgEnd : Addr) (count : Nat) :
    rgEnd + paging64Pagesz + BitVec.ofNat 64 count * paging64Pagesz =
      rgEnd + BitVec.ofNat 64 (count + 1) * paging64Pagesz := by
  rw [BitVec.ofNat_add, BitVec.add_mul, BitVec.add_assoc, BitVec.add_comm paging64Pagesz]
  rfl

/-- The loop maps as many pages as both the count and the frames allow. -/
theorem mapFrames_eq (addr : Addr) (pgnum : Int) (frames : List Addr) (retRg : VmRgStruct)
    (pgit : Nat) :
    mapFrames addr pgnum mm retRg pgit frames =
      (mm.mapPages (rangePages addr pgit (frames.take (pgnum - pgit).toNat))).map fun mm =>
        (mm, { retRg with
          rgEnd := retRg.rgEnd +
            BitVec.ofNat 64 (min (pgnum - pgit).toNat frames.length) * paging64Pagesz }) := by
  induction frames generalizing mm retRg pgit with
  | nil => simp [mapFrames, rangePages, mapPages, Except.map]
  | cons fpn rest ih =>
      by_cases hround : (pgit : Int) < pgnum
      · obtain ⟨left, hleft⟩ : ∃ left, (pgnum - pgit).toNat = left + 1 :=
          ⟨(pgnum - pgit).toNat - 1, by omega⟩
        have hnext : (pgnum - (pgit + 1 : Nat)).toNat = left := by omega
        rw [mapFrames_cons hround, hleft, List.take_succ_cons, List.length_cons,
          Nat.add_min_add_right]
        simp only [rangePages, List.zipIdx_cons, List.map_cons, mapPages, List.foldlM_cons]
        cases mm.mapPage (rangePage addr pgit) fpn with
        | error fault => rfl
        | ok mapped =>
            rw [ok_bind, ok_bind, ih, hnext, rgEnd_succ]
            rfl
      · have hzero : (pgnum - pgit).toNat = 0 := by omega
        simp [mapFrames, hround, hzero, rangePages, mapPages, Except.map]

theorem mapPage_eq_ok {pgn fpn : Addr} (hmap : mm.mapPage pgn fpn = .ok next) :
    ∃ mapped, mm.pteSetFpn pgn fpn = .ok mapped ∧
      next = { mapped with fifoPgn := pgn :: mm.fifoPgn } := by
  obtain ⟨mapped, hset, hnext⟩ := bind_eq_ok.mp hmap
  obtain ⟨pgd, -, hmapped⟩ := updatePte_eq_ok hset
  refine ⟨mapped, hset, ?_⟩
  rw [← Except.ok.inj hnext, hmapped]

theorem exists_mapPages (pages : List (Addr × Addr)) (hpgd : mm.pgd.isSome) :
    ∃ next, mm.mapPages pages = .ok next := by
  induction pages generalizing mm with
  | nil => exact ⟨mm, rfl⟩
  | cons page rest ih =>
      obtain ⟨pgd, hpgd⟩ := Option.isSome_iff_exists.mp hpgd
      obtain ⟨mapped, hset⟩ := exists_updatePte hpgd page.1 (fpnEntry page.2)
      have hmapped : mapped.pgd.isSome := by
        obtain ⟨found, -, rfl⟩ := updatePte_eq_ok hset
        rfl
      have hlisted : ({ mapped with fifoPgn := page.1 :: mapped.fifoPgn } : MmStruct).pgd.isSome :=
        hmapped
      obtain ⟨next, hnext⟩ := ih hlisted
      refine ⟨next, ?_⟩
      unfold mapPages mapPage pteSetFpn
      rw [List.foldlM_cons, hset]
      exact hnext

/-- The pages are listed, the last one first. -/
theorem fifoPgn_mapPages (pages : List (Addr × Addr)) (hmap : mm.mapPages pages = .ok next) :
    next.fifoPgn = (pages.map Prod.fst).reverse ++ mm.fifoPgn := by
  induction pages generalizing mm with
  | nil =>
      obtain rfl := Except.ok.inj hmap
      rfl
  | cons page rest ih =>
      obtain ⟨middle, hpage, hrest⟩ := bind_eq_ok.mp hmap
      obtain ⟨mapped, -, rfl⟩ := mapPage_eq_ok hpage
      simp [ih hrest]

/-- The entries of other pages survive. -/
theorem leaf_mapPages_of_notMem (pages : List (Addr × Addr)) (hmap : mm.mapPages pages = .ok next)
    {pgn : Addr} (hother : ∀ page ∈ pages, pageOf pgn ≠ pageOf page.1) :
    next.leaf pgn = mm.leaf pgn := by
  induction pages generalizing mm with
  | nil =>
      obtain rfl := Except.ok.inj hmap
      rfl
  | cons page rest ih =>
      obtain ⟨middle, hpage, hrest⟩ := bind_eq_ok.mp hmap
      obtain ⟨mapped, hset, rfl⟩ := mapPage_eq_ok hpage
      rw [ih hrest fun later hlater => hother later (List.mem_cons_of_mem _ hlater)]
      exact leaf_updatePte_of_pageOf_ne hset (hother page List.mem_cons_self)

/-- Each page gets its frame, and keeps it when no later page is the same. -/
theorem leaf_mapPages_of_mem (pages : List (Addr × Addr)) (hmap : mm.mapPages pages = .ok next)
    (hnodup : (pages.map fun page => pageOf page.1).Nodup) {page : Addr × Addr}
    (hpage : page ∈ pages) : next.leaf page.1 = fpnEntry page.2 (mm.leaf page.1) := by
  induction pages generalizing mm with
  | nil => cases hpage
  | cons first rest ih =>
      obtain ⟨middle, hfirst, hrest⟩ := bind_eq_ok.mp hmap
      obtain ⟨mapped, hset, rfl⟩ := mapPage_eq_ok hfirst
      rw [List.map_cons, List.nodup_cons] at hnodup
      obtain ⟨hfresh, hnodup⟩ := hnodup
      rcases List.mem_cons.mp hpage with rfl | hlater
      · rw [leaf_mapPages_of_notMem rest hrest]
        · change mapped.leaf page.1 = _
          exact leaf_updatePte_self hset
        · intro later hlater hsame
          exact hfresh (List.mem_map.mpr ⟨later, hlater, hsame.symm⟩)
      · rw [ih hrest hnodup hlater]
        refine congrArg _ (leaf_updatePte_of_pageOf_ne hset ?_)
        intro hsame
        exact hfresh (List.mem_map.mpr ⟨page, hlater, hsame⟩)

/-! ## A range inside the address space -/

variable {addr : Addr}

theorem map_fst_rangePages (addr : Addr) (frames : List Addr) :
    (rangePages addr 0 frames).map Prod.fst = (List.range frames.length).map (rangePage addr) := by
  unfold rangePages
  apply List.ext_getElem
  · simp
  · intro index _ _
    simp

theorem mem_rangePages {frames : List Addr} {page : Addr × Addr} :
    page ∈ rangePages addr 0 frames ↔
      ∃ pgit, ∃ h : pgit < frames.length, page = (rangePage addr pgit, frames[pgit]) := by
  unfold rangePages
  rw [List.mem_map]
  constructor
  · rintro ⟨⟨fpn, pgit⟩, hmem, rfl⟩
    obtain ⟨hlt, hfpn⟩ := List.mk_mem_zipIdx_iff_getElem?.mp hmem |> List.getElem?_eq_some_iff.mp
    exact ⟨pgit, hlt, by rw [hfpn]⟩
  · rintro ⟨pgit, hlt, rfl⟩
    exact ⟨(frames[pgit], pgit),
      List.mk_mem_zipIdx_iff_getElem?.mpr (List.getElem?_eq_getElem hlt), rfl⟩

/-- Without wrap-around the loop counts pages up. -/
theorem rangePage_toNat {pgit : Nat}
    (hfit : (addr >>> paging64AddrPtShift).toNat + pgit < 2 ^ 52) :
    (rangePage addr pgit).toNat = (addr >>> paging64AddrPtShift).toNat + pgit := by
  have hpagesz : BitVec.toNat paging64Pagesz = 4096 := rfl
  unfold rangePage
  simp only [paging64AddrPtShift, BitVec.toNat_ushiftRight, Nat.shiftRight_eq_div_pow,
    BitVec.toNat_add, BitVec.toNat_mul, BitVec.toNat_ofNat, hpagesz] at hfit ⊢
  omega

theorem rangePage_eq {pgit : Nat} (hfit : (addr >>> paging64AddrPtShift).toNat + pgit < 2 ^ 45) :
    rangePage addr pgit = addr >>> paging64AddrPtShift + BitVec.ofNat 64 pgit := by
  apply BitVec.eq_of_toNat_eq
  rw [rangePage_toNat (by omega), BitVec.toNat_add, BitVec.toNat_ofNat]
  omega

theorem nodup_rangePages {frames : List Addr}
    (hfit : (addr >>> paging64AddrPtShift).toNat + frames.length ≤ 2 ^ 45) :
    ((rangePages addr 0 frames).map fun page => pageOf page.1).Nodup := by
  have hpages : (rangePages addr 0 frames).map (fun page => pageOf page.1) =
      (List.range frames.length).map fun pgit => pageOf (rangePage addr pgit) := by
    have hmap := congrArg (List.map pageOf) (map_fst_rangePages addr frames)
    rwa [List.map_map, List.map_map] at hmap
  rw [hpages]
  apply List.Nodup.map_on _ List.nodup_range
  intro first hfirst second hsecond hsame
  rw [List.mem_range] at hfirst hsecond
  have hnumber := congrArg (fun page => page.1.toNat) hsame
  simp only [pageOf_toNat] at hnumber
  rw [rangePage_toNat (by omega), rangePage_toNat (by omega)] at hnumber
  omega

/-- Mapping a range gives every page its frame, lists the pages and leaves the rest alone. -/
theorem vmapPageRange_maps (mm : MmStruct) (hpgd : mm.pgd.isSome) (addr : Addr) (pgnum : Int)
    (frames : List Addr) (hfpn : ∀ fpn ∈ frames, fpn.toNat < 2 ^ 13)
    (hfit : (addr >>> paging64AddrPtShift).toNat + min pgnum.toNat frames.length ≤ 2 ^ 45) :
    ∃ next, mm.vmapPageRange addr pgnum frames =
        .ok (next, { rgStart := addr, rgEnd :=
          addr + BitVec.ofNat 64 (min pgnum.toNat frames.length) * paging64Pagesz }) ∧
      (∀ pgit (hframe : pgit < frames.length), pgit < pgnum.toNat →
        pagingPagePresent (next.pte (addr >>> paging64AddrPtShift + BitVec.ofNat 64 pgit)) = true ∧
        pteSwapped (next.pte (addr >>> paging64AddrPtShift + BitVec.ofNat 64 pgit)) = false ∧
        (pagingFpn (next.pte (addr >>> paging64AddrPtShift + BitVec.ofNat 64 pgit))).toNat =
          frames[pgit].toNat) ∧
      (∀ pgn : Addr, pgn.toNat < 2 ^ 45 →
        (∀ pgit < min pgnum.toNat frames.length,
          pgn ≠ addr >>> paging64AddrPtShift + BitVec.ofNat 64 pgit) →
        next.leaf pgn = mm.leaf pgn) ∧
      next.fifoPgn = ((List.range (min pgnum.toNat frames.length)).map fun pgit =>
        addr >>> paging64AddrPtShift + BitVec.ofNat 64 pgit).reverse ++ mm.fifoPgn := by
  have hlength : (frames.take pgnum.toNat).length = min pgnum.toNat frames.length :=
    List.length_take
  obtain ⟨next, hmap⟩ := exists_mapPages (rangePages addr 0 (frames.take pgnum.toNat)) hpgd
  have hpage : ∀ pgit < min pgnum.toNat frames.length,
      rangePage addr pgit = addr >>> paging64AddrPtShift + BitVec.ofNat 64 pgit :=
    fun pgit hpgit => rangePage_eq (by omega)
  refine ⟨next, ?_, ?_, ?_, ?_⟩
  · unfold vmapPageRange
    rw [mapFrames_eq]
    simp [hmap, Except.map]
  · intro pgit hframe hpgit
    have hmem : (rangePage addr pgit, frames[pgit]) ∈
        rangePages addr 0 (frames.take pgnum.toNat) :=
      mem_rangePages.mpr ⟨pgit, by omega, by simp⟩
    have hentry := leaf_mapPages_of_mem _ hmap (nodup_rangePages (by omega)) hmem
    rw [hpage pgit (by omega)] at hentry
    unfold pte
    rw [hentry]
    refine ⟨pagingPagePresent_fpnEntry _ _, pteSwapped_fpnEntry _ _, ?_⟩
    rw [pagingFpn_fpnEntry]
    exact Nat.mod_eq_of_lt (hfpn _ (List.getElem_mem hframe))
  · intro pgn hpgn hother
    apply leaf_mapPages_of_notMem _ hmap
    intro page hmem hsame
    obtain ⟨pgit, hlt, rfl⟩ := mem_rangePages.mp hmem
    rw [hlength] at hlt
    apply hother pgit hlt
    rw [← hpage pgit hlt, ← pageOf_of_lt hpgn, hsame]
    apply pageOf_of_lt
    rw [rangePage_toNat (by omega)]
    omega
  · rw [fifoPgn_mapPages _ hmap, map_fst_rangePages, hlength]
    congr 2
    apply List.map_congr_left
    intro pgit hpgit
    exact hpage pgit (List.mem_range.mp hpgit)

/-- Three frames for two pages. -/
theorem vmapPageRange_maps_two_pages :
    ∃ next, (initMm .null).vmapPageRange 0x4000 2 [3, 5, 8] =
        .ok (next, { rgStart := 0x4000, rgEnd := 0x6000 }) ∧
      (pagingFpn (next.pte 5)).toNat = 5 ∧ next.leaf 6 = 0 ∧ next.fifoPgn = [5, 4] := by
  obtain ⟨next, hcall, hpages, hothers, hfifo⟩ :=
    vmapPageRange_maps (initMm .null) rfl 0x4000 2 [3, 5, 8] (by simp) (by decide)
  refine ⟨next, hcall, ?_, ?_, hfifo⟩
  · exact (hpages 1 (by decide) (by decide)).2.2
  · rw [hothers 6 (by decide) (by decide)]
    exact leaf_initMm .null 6

end MmStruct

end SimpleOs
