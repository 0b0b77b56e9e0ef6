import SimpleOs.Kernel.SwapOut
import SimpleOs.Kernel.Victim

/-! # Getting a page

`pg_getpage` should make an absent page present in place of a victim. It takes the victim
off its list and a slot off the free list, and leaves copying and both entries undone: the
page that it reports is still absent. When there is no slot, the victim is gone all the same.
-/

namespace SimpleOs

variable {Proc : Type}

namespace Krnl

/-- The ways that `pg_getpage` can go. -/
inductive GetPageCase (krnl : Krnl Proc) (pgn : Addr) :
    Except Fault (Option Word32 × Krnl Proc) → Prop
  | present {walked : MmStruct} (hpresent : pagingPagePresent (krnl.mm.pte pgn) = true)
      (hwalked : krnl.mm.Walked walked) :
      GetPageCase krnl pgn
        (.ok (some (pagingFpn (krnl.mm.pte pgn)), { krnl with mm := walked }))
  | noVictim {walked : MmStruct} (habsent : pagingPagePresent (krnl.mm.pte pgn) = false)
      (hfifo : krnl.mm.fifoPgn = []) (hwalked : krnl.mm.Walked walked) :
      GetPageCase krnl pgn (.ok (none, { krnl with mm := walked }))
  | onlyPage {vicpgn : Addr} (habsent : pagingPagePresent (krnl.mm.pte pgn) = false)
      (hfifo : krnl.mm.fifoPgn = [vicpgn]) :
      GetPageCase krnl pgn (.error .nullDeref)
  | noSlot {walked : MmStruct} {pages : List Addr} {vicpgn : Addr}
      (habsent : pagingPagePresent (krnl.mm.pte pgn) = false) (hpages : pages ≠ [])
      (hfifo : krnl.mm.fifoPgn = pages ++ [vicpgn])
      (hslots : krnl.activeMswp.freeFpList = { nodes := [], stop := .null })
      (hwalked : { krnl.mm with fifoPgn := pages }.Walked walked) :
      GetPageCase krnl pgn (.ok (none, { krnl with mm := walked }))
  | wildSlot (habsent : pagingPagePresent (krnl.mm.pte pgn) = false)
      (hslots : krnl.activeMswp.freeFpList = { nodes := [], stop := .wild }) :
      GetPageCase krnl pgn (.error .wildDeref)
  | listed {walked : MmStruct} {pages : List Addr} {vicpgn slot : Addr} {slots : List Addr}
      (habsent : pagingPagePresent (krnl.mm.pte pgn) = false) (hpages : pages ≠ [])
      (hfifo : krnl.mm.fifoPgn = pages ++ [vicpgn])
      (hslots : krnl.activeMswp.freeFpList.nodes = slot :: slots)
      (hwalked : { krnl.mm with fifoPgn := pgn :: pages }.Walked walked) :
      GetPageCase krnl pgn
        (.ok (some (pagingFpn (krnl.mm.pte pgn)), { krnl with
          mm := walked
          activeMswp := { krnl.activeMswp with
            freeFpList := { krnl.activeMswp.freeFpList with nodes := slots } } }))

variable {krnl : Krnl Proc}

theorem getPageCase (hdirectories : krnl.mm.HasDirectories) (pgn : Addr) :
    krnl.GetPageCase pgn (pgGetpage krnl pgn) := by
  obtain ⟨walked, hentry, hwalked⟩ := hdirectories.pteGetEntry pgn
  unfold pgGetpage
  simp only [hentry]
  split
  next hpresent =>
    obtain ⟨again, hagain, hagainWalked⟩ := hwalked.directories.pteGetEntry pgn
    simp only [hagain, hwalked.pte]
    exact .present hpresent (hwalked.trans hagainWalked)
  next habsent =>
    rw [Bool.not_eq_true] at habsent
    have hfifoPgn := hwalked.fifoPgn
    rcases MmStruct.findVictimPage_cases walked with ⟨hnil, hvictim⟩ | ⟨only, hfifo, hvictim⟩ |
      ⟨pages, vicpgn, hpages, hfifo, hvictim⟩
    · rw [hvictim]
      exact .noVictim habsent (hfifoPgn ▸ hnil) hwalked
    · rw [hvictim]
      exact .onlyPage habsent (hfifoPgn ▸ hfifo)
    · rw [hfifoPgn] at hfifo
      rw [hvictim, ok_bind]
      simp only
      rcases krnl.activeMswp.getFreefp_cases with ⟨hslots, hslot⟩ | ⟨hslots, hslot⟩ |
        ⟨slot, slots, hslots, hslot⟩
      · rw [hslot]
        exact .noSlot habsent hpages hfifo hslots ⟨hwalked.directories, hwalked.leaf, rfl⟩
      · rw [hslot]
        exact .wildSlot habsent hslots
      · have hlisted : ({ walked with fifoPgn := pgn :: pages } : MmStruct).HasDirectories :=
          hwalked.directories
        obtain ⟨again, hagain, hagainWalked⟩ := hlisted.pteGetEntry pgn
        have hpte : ({ walked with fifoPgn := pgn :: pages } : MmStruct).pte pgn =
            krnl.mm.pte pgn := hwalked.pte pgn
        rw [hslot]
        simp only [ok_bind, hagain, hpte]
        exact .listed habsent hpages hfifo hslots
          ⟨hagainWalked.directories, hagainWalked.leaf.trans hwalked.leaf, hagainWalked.fifoPgn⟩

/-! ## Success -/

/-- What getting a page should come to. The page is in the frame, alone, and a page that
had to leave the list for it is in the slot that was taken, with its bytes. -/
structure GotPage (krnl after : Krnl Proc) (pgn : Addr) (fpn : Word32) : Prop where
  present : pagingPagePresent (after.mm.pte pgn) = true
  not_swapped : pteSwapped (after.mm.pte pgn) = false
  frame : fpn = pagingFpn (after.mm.pte pgn)
  alone : ∀ page, page ≠ pageOf pgn → after.mm.frameOf page ≠ some fpn.toNat
  evicted : ∀ vicpgn, after.mm.fifoPgn.count vicpgn < krnl.mm.fifoPgn.count vicpgn →
    ∃ slot, krnl.activeMswp.freeFpList.nodes = slot :: after.activeMswp.freeFpList.nodes ∧
      pteSlot (after.mm.pte vicpgn) = some slot.toNat ∧
      ∀ cellidx < pagingPagesz, after.activeMswp.frameByte slot.toNat cellidx =
        krnl.mram.frameByte (pagingFpn (krnl.mm.pte vicpgn)).toNat cellidx

/-- The page has a frame of its own already, or it cannot be had: the list has no two pages,
or there is no free slot. -/
def InPlace (krnl : Krnl Proc) (pgn : Addr) : Prop :=
  if pagingPagePresent (krnl.mm.pte pgn) then
    pteSwapped (krnl.mm.pte pgn) = false ∧
      ∀ page, page ≠ pageOf pgn → krnl.mm.frameOf page ≠ some (pagingFpn (krnl.mm.pte pgn)).toNat
  else krnl.mm.fifoPgn.length < 2 ∨ krnl.activeMswp.freeFpList.nodes = []

/-- `pg_getpage` delivers what it reports exactly when the page was in place, or not to be
had. -/
theorem gotPage_iff_inPlace (krnl : Krnl Proc) (hdirectories : krnl.mm.HasDirectories)
    (pgn : Word32) :
    (∀ fpn after, pgGetpage krnl (pgn.signExtend 64) = .ok (some fpn, after) →
      krnl.GotPage after (pgn.signExtend 64) fpn) ↔ krnl.InPlace (pgn.signExtend 64) := by
  have hcase := getPageCase hdirectories (pgn.signExtend 64)
  generalize pgn.signExtend 64 = page at hcase ⊢
  generalize pgGetpage krnl page = outcome at hcase ⊢
  unfold InPlace
  cases hcase with
  | present hpresent hwalked =>
      rw [if_pos hpresent]
      constructor
      · intro hgot
        have hpage := hgot _ _ rfl
        refine ⟨hwalked.pte page ▸ hpage.not_swapped, ?_⟩
        rw [← MmStruct.frameOf_congr hwalked.leaf]
        exact hpage.alone
      · rintro ⟨hswapped, halone⟩ fpn after hok
        obtain ⟨hfpn, rfl⟩ := Prod.mk.inj (Except.ok.inj hok)
        obtain rfl := Option.some.inj hfpn
        refine
          { present := (hwalked.pte page).symm ▸ hpresent
            not_swapped := (hwalked.pte page).symm ▸ hswapped
            frame := congrArg pagingFpn (hwalked.pte page).symm
            alone := ?_
            evicted := fun vicpgn hfewer => ?_ }
        · rw [MmStruct.frameOf_congr hwalked.leaf]
          exact halone
        · rw [hwalked.fifoPgn] at hfewer
          exact absurd hfewer (Nat.lt_irrefl _)
  | noVictim habsent hfifo hwalked =>
      simp [habsent, hfifo]
  | onlyPage habsent hfifo =>
      simp [habsent, hfifo]
  | noSlot habsent hpages hfifo hslots hwalked =>
      simp [habsent, hslots]
  | wildSlot habsent hslots =>
      simp [habsent, hslots]
  | listed habsent hpages hfifo hslots hwalked =>
      refine iff_of_false (fun hgot => ?_) ?_
      · have hpresent := (hgot _ _ rfl).present
        rw [hwalked.pte page] at hpresent
        exact absurd (hpresent.symm.trans habsent) (by decide)
      · have hpos := List.length_pos_of_ne_nil hpages
        simp [habsent, hslots, hfifo]
        omega

/-- `sevens` with one more page on the list. -/
def twoListed : Krnl Unit := { sevens with mm := { sevens.mm with fifoPgn := [0, 5] } }

theorem inPlace_sevens : sevens.InPlace 0 := by
  have hmm : ({ SimpleOs.initMm .null with
      pt := some fun _ => 0, fifoPgn := [0] } : MmStruct).updatePte 0 (fpnEntry 1) =
        .ok sevens.mm := rfl
  unfold InPlace
  rw [if_pos (by decide +kernel)]
  refine ⟨by decide +kernel, fun page hpage => ?_⟩
  have hempty : ({ SimpleOs.initMm .null with
      pt := some fun _ => 0, fifoPgn := [0] } : MmStruct).leaf page.1 = 0 :=
    MmStruct.leaf_initMm .null page.1
  rw [MmStruct.frameOf_updatePte hmm, Function.update_of_ne hpage]
  unfold MmStruct.frameOf MmStruct.pte
  rw [hempty]
  decide

/-- Page 0 of `sevens` is alone in its frame. -/
theorem gotPage_iff_inPlace_sevens :
    ∃ fpn after, pgGetpage sevens ((0 : Word32).signExtend 64) = .ok (some fpn, after) ∧
      sevens.GotPage after ((0 : Word32).signExtend 64) fpn := by
  have hfpn : (pgGetpage sevens ((0 : Word32).signExtend 64)).toOption.map Prod.fst =
      some (some 1) := by decide +kernel
  obtain ⟨⟨fpn, after⟩, hget, rfl⟩ := Option.map_eq_some_iff.mp hfpn
  rw [Runs.toOption_eq_some_iff] at hget
  exact ⟨1, after, hget,
    (gotPage_iff_inPlace sevens (by decide) 0).mpr inPlace_sevens 1 after hget⟩

/-- Page 3 is reported in frame 0 without being mapped at all. -/
theorem not_gotPage_twoListed :
    ∃ after, pgGetpage twoListed ((3 : Word32).signExtend 64) = .ok (some 0, after) ∧
      pagingPagePresent (after.mm.pte 3) = false ∧
      ¬ twoListed.GotPage after ((3 : Word32).signExtend 64) 0 := by
  have hfpn : (pgGetpage twoListed ((3 : Word32).signExtend 64)).toOption.map
      (fun got => (got.1, pagingPagePresent (got.2.mm.pte 3))) = some (some 0, false) := by
    decide +kernel
  obtain ⟨⟨fpn, after⟩, hget, hpair⟩ := Option.map_eq_some_iff.mp hfpn
  obtain ⟨rfl, habsent⟩ := Prod.mk.inj hpair
  rw [Runs.toOption_eq_some_iff] at hget
  refine ⟨after, hget, habsent, fun hgot => ?_⟩
  exact absurd (hgot.present.symm.trans habsent) (by decide)

/-! ## Failure -/

/-- Same list of pages, same entries, same free lists and same bytes. -/
structure Unchanged (krnl after : Krnl Proc) : Prop where
  fifoPgn : after.mm.fifoPgn = krnl.mm.fifoPgn
  leaf : after.mm.leaf = krnl.mm.leaf
  mram_free : after.mram.freeFpList = krnl.mram.freeFpList
  mswp_free : after.activeMswp.freeFpList = krnl.activeMswp.freeFpList
  mram_storage : after.mram.storage = krnl.mram.storage
  mswp_storage : after.activeMswp.storage = krnl.activeMswp.storage

/-- A failed call leaves the state alone, unless it took a victim before it found no slot. -/
theorem unchanged_iff_not_victim (krnl : Krnl Proc) (hdirectories : krnl.mm.HasDirectories)
    (pgn : Word32) :
    (∀ after, pgGetpage krnl (pgn.signExtend 64) = .ok (none, after) → krnl.Unchanged after) ↔
      ¬ (pagingPagePresent (krnl.mm.pte (pgn.signExtend 64)) = false ∧
        2 ≤ krnl.mm.fifoPgn.length ∧
        krnl.activeMswp.freeFpList = { nodes := [], stop := .null }) := by
  have hcase := getPageCase hdirectories (pgn.signExtend 64)
  generalize pgn.signExtend 64 = page at hcase ⊢
  generalize pgGetpage krnl page = outcome at hcase ⊢
  cases hcase with
  | present hpresent hwalked => simp [hpresent]
  | noVictim habsent hfifo hwalked =>
      refine iff_of_true (fun after hok => ?_) (by simp [hfifo])
      obtain ⟨-, rfl⟩ := Prod.mk.inj (Except.ok.inj hok)
      exact
        { fifoPgn := hwalked.fifoPgn
          leaf := hwalked.leaf
          mram_free := rfl
          mswp_free := rfl
          mram_storage := rfl
          mswp_storage := rfl }
  | onlyPage habsent hfifo => simp [hfifo]
  | noSlot habsent hpages hfifo hslots hwalked =>
      have hpos := List.length_pos_of_ne_nil hpages
      refine iff_of_false (fun hunchanged => ?_) (not_not.mpr ⟨habsent, ?_, hslots⟩)
      · have hsame := (hunchanged _ rfl).fifoPgn
        rw [hwalked.fifoPgn, hfifo] at hsame
        simp at hsame
      · rw [hfifo, List.length_append, List.length_singleton]
        omega
  | wildSlot habsent hslots => simp [hslots]
  | listed habsent hpages hfifo hslots hwalked =>
      have hfree : krnl.activeMswp.freeFpList ≠ { nodes := [], stop := .null } := by
        intro hlist
        rw [hlist] at hslots
        cases hslots
      simp [hfree]

/-- `twoListed` without a free slot. -/
def noSlots : Krnl Unit :=
  { twoListed with
    activeMswp := { twoListed.activeMswp with freeFpList := { nodes := [], stop := .null } } }

/-- The call fails on an empty list, and leaves it empty. -/
theorem unchanged_iff_not_victim_nothing :
    ∃ after, pgGetpage { sevens with mm := { sevens.mm with fifoPgn := [] } }
        ((3 : Word32).signExtend 64) = .ok (none, after) ∧
      ({ sevens with mm := { sevens.mm with fifoPgn := [] } } : Krnl Unit).Unchanged after := by
  have hfpn : (pgGetpage { sevens with mm := { sevens.mm with fifoPgn := [] } }
      ((3 : Word32).signExtend 64)).toOption.map Prod.fst = some none := by decide +kernel
  obtain ⟨⟨fpn, after⟩, hget, rfl⟩ := Option.map_eq_some_iff.mp hfpn
  rw [Runs.toOption_eq_some_iff] at hget
  refine ⟨after, hget, ?_⟩
  refine (unchanged_iff_not_victim { sevens with mm := { sevens.mm with fifoPgn := [] } }
    (by decide) 3).mpr ?_ after hget
  rintro ⟨-, htwo, -⟩
  exact absurd htwo (by decide)

/-- Page 5 is no longer listed after a failure. -/
theorem not_unchanged_noSlots :
    ∃ after, pgGetpage noSlots ((3 : Word32).signExtend 64) = .ok (none, after) ∧
      noSlots.mm.fifoPgn = [0, 5] ∧ after.mm.fifoPgn = [0] ∧ ¬ noSlots.Unchanged after := by
  have hfpn : (pgGetpage noSlots ((3 : Word32).signExtend 64)).toOption.map
      (fun got => (got.1, got.2.mm.fifoPgn)) = some (none, [0]) := by
    decide +kernel
  obtain ⟨⟨fpn, after⟩, hget, hpair⟩ := Option.map_eq_some_iff.mp hfpn
  obtain ⟨rfl, hfifo⟩ := Prod.mk.inj hpair
  rw [Runs.toOption_eq_some_iff] at hget
  refine ⟨after, hget, rfl, hfifo, fun hunchanged => ?_⟩
  have hsame := hfifo.symm.trans hunchanged.fifoPgn
  exact absurd hsame (by decide)

end Krnl

end SimpleOs
