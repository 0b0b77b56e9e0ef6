import SimpleOs.Foundation.Custody
import SimpleOs.Kernel.GetPage

/-! # Moves of frames and slots

RAM frames and swap slots are on free lists or named by entries. A call on a page takes
numbers from both and puts numbers into entries, and which ones can be told from the state
before. None of the calls ever puts a number back on a free list.
-/

namespace SimpleOs

open Custody

variable {Proc : Type}

/-- `numfp`, the number of frames that `MEMPHY_format` puts on the list. -/
def MemphyStruct.numfp (mp : MemphyStruct) : Nat := (mp.maxsz.tdiv pagingPagesz).toNat

/-- The frame numbers on the free list. -/
def MemphyStruct.freeNumbers (mp : MemphyStruct) : List Nat :=
  mp.freeFpList.nodes.map BitVec.toNat

/-! ## The calls -/

/-- A call that can fault on a page. -/
inductive PagingCall where
  | getpage (pgn : Word32)
  | read (source : Word32) (offset : Addr) (destination : Word32)
  | write (data : Byte) (destination : Word32) (offset : Addr)

/-- The state after a call. -/
def PagingCall.run (junk : Junk) (proc : PagingProc Proc) :
    PagingCall → Except Fault (PagingProc Proc)
  | .getpage pgn =>
      (pgGetpage proc.krnl (pgn.signExtend 64)).map fun (_, krnl) => { proc with krnl := krnl }
  | .read source offset destination =>
      (pgread junk proc source offset destination).map fun (_, proc) => proc
  | .write data destination offset =>
      (pgwrite junk proc data destination offset).map fun (_, proc) => proc

/-- Frame and slot numbers that a call takes from free lists and from entries, and that it
puts into entries. -/
structure Transfer where
  framesTaken : List Nat := []
  framesPut : List Nat := []
  slotsTaken : List Nat := []
  slotsPut : List Nat := []

namespace Transfer

def append (first second : Transfer) : Transfer where
  framesTaken := first.framesTaken ++ second.framesTaken
  framesPut := first.framesPut ++ second.framesPut
  slotsTaken := first.slotsTaken ++ second.slotsTaken
  slotsPut := first.slotsPut ++ second.slotsPut

/-- Replacing an entry. -/
def ofEntry (before after : Word32) : Transfer where
  framesTaken := (pteFrame before).toList
  framesPut := (pteFrame after).toList
  slotsTaken := (pteSlot before).toList
  slotsPut := (pteSlot after).toList

end Transfer

namespace Krnl

/-- The page is not present but swapped, so `pgread` and `pgwrite` bring it in. -/
def BringsIn (krnl : Krnl Proc) (pgn : Addr) : Prop :=
  pagingPagePresent (krnl.mm.pte pgn) = false ∧ pteSwapped (krnl.mm.pte pgn) = true

instance (krnl : Krnl Proc) (pgn : Addr) : Decidable (krnl.BringsIn pgn) :=
  inferInstanceAs (Decidable (_ ∧ _))

/-- The first free slot. -/
def firstSlot (krnl : Krnl Proc) : Option Addr := krnl.activeMswp.freeFpList.nodes.head?

/-- The number that the entry of a victim gets as its slot. -/
def victimSlot (junk : Junk) (krnl : Krnl Proc) : Nat :=
  (targetSlot junk krnl.firstSlot).toNat % 2 ^ 21

/-- What getting a frame takes and puts: the first free frame, or else the numbers in the
entry of the first listed page and the first free slot, for a new slot number there. -/
def forFrame (junk : Junk) (krnl : Krnl Proc) : Transfer :=
  match krnl.mram.freeFpList.nodes, krnl.mm.fifoPgn with
  | fpn :: _, _ => { framesTaken := [fpn.toNat] }
  | [], [] => {}
  | [], vicpgn :: _ =>
      { framesTaken := (pteFrame (krnl.mm.pte vicpgn)).toList
        slotsTaken := (krnl.firstSlot.map BitVec.toNat).toList ++
          (pteSlot (krnl.mm.pte vicpgn)).toList
        slotsPut := [krnl.victimSlot junk] }

/-- What `pgwrite` does with the entry of its own page: the frame goes in, and the slot goes
out, which is the new one when the page was swapped out for itself. -/
def forEntry (junk : Junk) (krnl : Krnl Proc) (pgn : Addr) : Transfer :=
  match krnl.mram.freeFpList.nodes, krnl.mm.fifoPgn with
  | fpn :: _, _ =>
      { framesPut := [fpn.toNat % 2 ^ 13], slotsTaken := (pteSlot (krnl.mm.pte pgn)).toList }
  | [], [] => {}
  | [], vicpgn :: _ =>
      { framesPut := [(pagingFpn (krnl.mm.pte vicpgn)).toNat]
        slotsTaken :=
          if pageOf vicpgn = pageOf pgn then [krnl.victimSlot junk]
          else (pteSlot (krnl.mm.pte pgn)).toList }

end Krnl

/-- What a call takes and puts. `pg_getpage` takes a slot for an absent page and forgets it. -/
def PagingCall.transfer (junk : Junk) (proc : PagingProc Proc) : PagingCall → Transfer
  | .getpage pgn =>
      if pagingPagePresent (proc.krnl.mm.pte (pgn.signExtend 64)) then {}
      else
        match proc.krnl.mm.fifoPgn with
        | _ :: _ :: _ => { slotsTaken := (proc.krnl.firstSlot.map BitVec.toNat).toList }
        | _ => {}
  | .read source offset _ =>
      match proc.reg source with
      | .error _ => {}
      | .ok base =>
          if proc.krnl.BringsIn (pagingPgn (base + offset)) then proc.krnl.forFrame junk else {}
  | .write _ destination offset =>
      match proc.reg destination with
      | .error _ => {}
      | .ok base =>
          if proc.krnl.BringsIn (pagingPgn (base + offset)) then
            (proc.krnl.forFrame junk).append (proc.krnl.forEntry junk (pagingPgn (base + offset)))
          else {}

/-! ## Moving numbers -/

namespace Krnl

/-- From one state to the other, numbers are taken and put as the transfer says. -/
structure Moves (krnl after : Krnl Proc) (transfer : Transfer) : Prop where
  mram_numfp : after.mram.numfp = krnl.mram.numfp
  mswp_numfp : after.activeMswp.numfp = krnl.activeMswp.numfp
  frames : ∀ fpn,
    places after.mram.freeNumbers after.mm.frameOf fpn + transfer.framesTaken.count fpn =
      places krnl.mram.freeNumbers krnl.mm.frameOf fpn + transfer.framesPut.count fpn
  slots : ∀ slot,
    places after.activeMswp.freeNumbers after.mm.slotOf slot + transfer.slotsTaken.count slot =
      places krnl.activeMswp.freeNumbers krnl.mm.slotOf slot + transfer.slotsPut.count slot

variable {krnl middle after : Krnl Proc} {first second : Transfer}

/-- Two steps in a row. -/
theorem places_trans {start between final taken put taken' put' : ℕ∞}
    (hfirst : between + taken = start + put) (hsecond : final + taken' = between + put') :
    final + (taken + taken') = start + (put + put') := by
  calc final + (taken + taken') = final + taken' + taken := by ac_rfl
    _ = between + put' + taken := by rw [hsecond]
    _ = between + taken + put' := by ac_rfl
    _ = start + put + put' := by rw [hfirst]
    _ = start + (put + put') := by ac_rfl

theorem Moves.trans (hfirst : krnl.Moves middle first) (hsecond : middle.Moves after second) :
    krnl.Moves after (first.append second) where
  mram_numfp := hsecond.mram_numfp.trans hfirst.mram_numfp
  mswp_numfp := hsecond.mswp_numfp.trans hfirst.mswp_numfp
  frames fpn := by
    unfold Transfer.append
    rw [List.count_append, List.count_append, Nat.cast_add, Nat.cast_add]
    exact places_trans (hfirst.frames fpn) (hsecond.frames fpn)
  slots slot := by
    unfold Transfer.append
    rw [List.count_append, List.count_append, Nat.cast_add, Nat.cast_add]
    exact places_trans (hfirst.slots slot) (hsecond.slots slot)

/-- The first numbers of the free lists are taken. -/
theorem moves_of_free {frames slots : List Nat} (hleaf : after.mm.leaf = krnl.mm.leaf)
    (hmram : after.mram.numfp = krnl.mram.numfp)
    (hmswp : after.activeMswp.numfp = krnl.activeMswp.numfp)
    (hframes : krnl.mram.freeNumbers = frames ++ after.mram.freeNumbers)
    (hslots : krnl.activeMswp.freeNumbers = slots ++ after.activeMswp.freeNumbers) :
    krnl.Moves after { framesTaken := frames, slotsTaken := slots } where
  mram_numfp := hmram
  mswp_numfp := hmswp
  frames fpn := by
    rw [MmStruct.frameOf_congr hleaf, places_append, hframes]
    exact (add_zero _).symm
  slots slot := by
    rw [MmStruct.slotOf_congr hleaf, places_append, hslots]
    exact (add_zero _).symm

theorem SameOwners.moves (hsame : krnl.SameOwners after) : krnl.Moves after {} := by
  refine moves_of_free hsame.leaf ?_ ?_ ?_ ?_
  · unfold MemphyStruct.numfp
    rw [hsame.mram.maxsz]
  · unfold MemphyStruct.numfp
    rw [hsame.activeMswp.maxsz]
  · unfold MemphyStruct.freeNumbers
    rw [hsame.mram.freeFpList, List.nil_append]
  · unfold MemphyStruct.freeNumbers
    rw [hsame.activeMswp.freeFpList, List.nil_append]

/-- Steps before and after that change no owner. -/
theorem Moves.between {start final : Krnl Proc} (hbefore : start.SameOwners krnl)
    (hmoves : krnl.Moves after first) (hafter : after.SameOwners final) :
    start.Moves final first := by
  have hall := (hbefore.moves.trans hmoves).trans hafter.moves
  have happend : ((({} : Transfer).append first).append {}) = first := by
    unfold Transfer.append
    simp only [List.nil_append, List.append_nil]
  rwa [happend] at hall

/-- A writer replaces the entry of one page. -/
theorem moves_updatePte {pgn : Addr} {change : Addr → Addr} {mm : MmStruct}
    (hupdate : krnl.mm.updatePte pgn change = .ok mm) :
    krnl.Moves { krnl with mm := mm }
      (Transfer.ofEntry (krnl.mm.pte pgn) ((change (krnl.mm.leaf pgn)).setWidth 32)) where
  mram_numfp := rfl
  mswp_numfp := rfl
  frames fpn := by
    rw [MmStruct.frameOf_updatePte hupdate]
    unfold Transfer.ofEntry
    rw [← MmStruct.frameOf_pageOf]
    exact places_update _ _ _ _ _
  slots slot := by
    rw [MmStruct.slotOf_updatePte hupdate]
    unfold Transfer.ofEntry
    rw [← MmStruct.slotOf_pageOf]
    exact places_update _ _ _ _ _

/-! ## Getting a frame -/

theorem freeNumbers_eq (mp : MemphyStruct) :
    mp.freeNumbers = (mp.freeFpList.nodes.head?.map BitVec.toNat).toList ++
      mp.freeFpList.nodes.tail.map BitVec.toNat := by
  unfold MemphyStruct.freeNumbers
  cases mp.freeFpList.nodes <;> rfl

/-- The entry of the first listed page gives up its numbers for a slot number. -/
theorem moves_swapOutFirst {junk : Junk} {vicfpn : Addr} (hdirectories : krnl.mm.HasDirectories)
    (hswap : swapOutFirst junk krnl = .ok (vicfpn, after)) :
    ∃ vicpgn pages, krnl.mm.fifoPgn = vicpgn :: pages ∧
      vicfpn = (pagingFpn (krnl.mm.pte vicpgn)).signExtend 64 ∧
      after.mm.HasDirectories ∧
      after.mm.frameOf = Function.update krnl.mm.frameOf (pageOf vicpgn) none ∧
      after.mm.slotOf =
        Function.update krnl.mm.slotOf (pageOf vicpgn) (some (krnl.victimSlot junk)) ∧
      krnl.Moves after
        { framesTaken := (pteFrame (krnl.mm.pte vicpgn)).toList
          slotsTaken := (krnl.firstSlot.map BitVec.toNat).toList ++
            (pteSlot (krnl.mm.pte vicpgn)).toList
          slotsPut := [krnl.victimSlot junk] } := by
  unfold swapOutFirst at hswap
  split at hswap
  next => cases hswap
  next vicpgn pages hfifo =>
    obtain ⟨walked, hwalked, hwalkedDirectories, hleaf, -⟩ := hdirectories.pteGetEntry vicpgn
    simp only [hwalked] at hswap
    obtain ⟨⟨freefp, activeMswp⟩, hget, hswap⟩ := bind_eq_ok.mp hswap
    obtain ⟨hfirst, hmswp⟩ := MemphyStruct.getFreefp_eq_ok hget
    obtain rfl : freefp = krnl.firstSlot := hfirst
    obtain ⟨copied, hcopy, hswap⟩ := bind_eq_ok.mp hswap
    obtain ⟨mm, hmm, hswap⟩ := bind_eq_ok.mp hswap
    obtain ⟨rfl, rfl⟩ := Prod.mk.inj (Except.ok.inj hswap)
    obtain ⟨hsame, hcopiedMm⟩ := sameOwners_mmSwapPage hcopy
    change copied.mm = walked at hcopiedMm
    unfold MmStruct.pteSetSwap at hmm
    have htaken : krnl.Moves { krnl with mm := walked, activeMswp := activeMswp }
        { slotsTaken := (krnl.firstSlot.map BitVec.toNat).toList } := by
      refine moves_of_free hleaf rfl ?_ (List.nil_append _).symm ?_
      · rw [hmswp]
        rfl
      · rw [hmswp]
        exact freeNumbers_eq krnl.activeMswp
    have hentry := (htaken.between (SameOwners.refl _) hsame).trans (moves_updatePte hmm)
    have hpte : copied.mm.pte vicpgn = krnl.mm.pte vicpgn :=
      MmStruct.pte_congr (hcopiedMm ▸ hleaf) vicpgn
    refine ⟨vicpgn, pages, hfifo, rfl, ?_, ?_, ?_, ?_⟩
    · rw [← hcopiedMm] at hwalkedDirectories
      exact (hwalkedDirectories.updatePte hmm).1
    · change mm.frameOf = _
      rw [MmStruct.frameOf_updatePte hmm, pteFrame_swapEntry, hcopiedMm,
        MmStruct.frameOf_congr hleaf]
    · change mm.slotOf = _
      rw [MmStruct.slotOf_updatePte hmm, pteSlot_swapEntry, hcopiedMm,
        MmStruct.slotOf_congr hleaf]
      rfl
    · unfold Transfer.ofEntry Transfer.append at hentry
      simp only [pteFrame_swapEntry, pteSlot_swapEntry, hpte, List.nil_append] at hentry
      exact hentry

/-- A number that has passed through an `int`. -/
theorem toNat_signExtend_mod (x : Word32) :
    (x.signExtend 64).toNat % 2 ^ 13 = x.toNat % 2 ^ 13 := by
  rw [BitVec.toNat_signExtend, BitVec.toNat_setWidth]
  split <;> omega

theorem pagingFpn_lt (pte : Word32) : (pagingFpn pte).toNat < 2 ^ 13 := by
  have hfield : (pagingFpn pte).toNat = pte.toNat / 2 ^ 0 % 2 ^ 13 :=
    getval_toNat pte 13 0 (by decide) (by decide)
  rw [hfield]
  exact Nat.mod_lt _ (by decide)

/-- Getting a frame. When it then goes into the entry of an absent page, that entry gives up
its slot number. -/
theorem moves_victimFrame {junk : Junk} {vicfpn : Addr} (hdirectories : krnl.mm.HasDirectories)
    (hframe : victimFrame junk krnl = .ok (vicfpn, after)) :
    after.mm.HasDirectories ∧ krnl.Moves after (krnl.forFrame junk) ∧
      ∀ pgn leaf, pteFrame (krnl.mm.pte pgn) = none →
        Transfer.ofEntry (after.mm.pte pgn) ((fpnEntry vicfpn leaf).setWidth 32) =
          krnl.forEntry junk pgn := by
  unfold victimFrame at hframe
  obtain ⟨⟨freefp, mram⟩, hget, hframe⟩ := bind_eq_ok.mp hframe
  cases freefp with
  | some fpn =>
      obtain ⟨rfl, rfl⟩ := Prod.mk.inj (Except.ok.inj hframe)
      obtain ⟨hfirst, hmram⟩ := MemphyStruct.getFreefp_eq_ok hget
      obtain ⟨rest, hnodes⟩ : ∃ rest, krnl.mram.freeFpList.nodes = fpn :: rest :=
        List.head?_eq_some_iff.mp hfirst.symm
      refine ⟨hdirectories, ?_, fun pgn leaf habsent => ?_⟩
      · unfold forFrame
        rw [hnodes]
        refine moves_of_free rfl ?_ rfl ?_ (List.nil_append _).symm
        · rw [hmram]
          rfl
        · rw [hmram, freeNumbers_eq, hnodes]
          rfl
      · have hnumber : ((fpn.setWidth 32).signExtend 64).toNat % 2 ^ 13 = fpn.toNat % 2 ^ 13 := by
          rw [toNat_signExtend_mod, BitVec.toNat_setWidth]
          omega
        unfold Transfer.ofEntry forEntry
        simp only [hnodes, habsent, pteFrame_fpnEntry, pteSlot_fpnEntry, hnumber,
          Option.toList_none, Option.toList_some]
  | none =>
      obtain ⟨hnodes, rfl⟩ := MemphyStruct.getFreefp_eq_none hget
      obtain ⟨vicpgn, pages, hfifo, rfl, hafterDirectories, hframes, hslots, hmoves⟩ :=
        moves_swapOutFirst hdirectories hframe
      refine ⟨hafterDirectories, ?_, fun pgn leaf habsent => ?_⟩
      · unfold forFrame
        rw [hnodes, hfifo]
        exact hmoves
      · have hpteFrame : pteFrame (after.mm.pte pgn) = none := by
          rw [← MmStruct.frameOf_pageOf, hframes, Function.update_apply,
            MmStruct.frameOf_pageOf, habsent, ite_self]
        have hnumber : ((pagingFpn (krnl.mm.pte vicpgn)).signExtend 64).toNat % 2 ^ 13 =
            (pagingFpn (krnl.mm.pte vicpgn)).toNat := by
          rw [toNat_signExtend_mod, Nat.mod_eq_of_lt (pagingFpn_lt _)]
        have hpteSlot : (pteSlot (after.mm.pte pgn)).toList =
            if pageOf vicpgn = pageOf pgn then [krnl.victimSlot junk]
            else (pteSlot (krnl.mm.pte pgn)).toList := by
          rw [← MmStruct.slotOf_pageOf, hslots, Function.update_apply, MmStruct.slotOf_pageOf,
            apply_ite Option.toList]
          simp only [eq_comm (a := pageOf pgn), Option.toList_some]
        unfold Transfer.ofEntry forEntry
        simp only [hnodes, hfifo, hpteFrame, hpteSlot, pteFrame_fpnEntry, pteSlot_fpnEntry,
          hnumber, Option.toList_none, Option.toList_some]

/-! ## The calls -/

/-- Walking to an entry changes nothing that a call depends on. -/
theorem forFrame_congr (junk : Junk) {mm : MmStruct} (hleaf : mm.leaf = krnl.mm.leaf)
    (hfifo : mm.fifoPgn = krnl.mm.fifoPgn) :
    ({ krnl with mm := mm } : Krnl Proc).forFrame junk = krnl.forFrame junk := by
  unfold forFrame MmStruct.pte
  simp only [hleaf, hfifo]
  rfl

theorem forEntry_congr (junk : Junk) {mm : MmStruct} (hleaf : mm.leaf = krnl.mm.leaf)
    (hfifo : mm.fifoPgn = krnl.mm.fifoPgn) (pgn : Addr) :
    ({ krnl with mm := mm } : Krnl Proc).forEntry junk pgn = krnl.forEntry junk pgn := by
  unfold forEntry MmStruct.pte
  simp only [hleaf, hfifo]
  rfl

theorem pteFrame_of_bringsIn {pgn : Addr} (hbrings : krnl.BringsIn pgn) :
    pteFrame (krnl.mm.pte pgn) = none := by
  unfold pteFrame
  rw [if_neg fun h => h.2 hbrings.2]

end Krnl

open Krnl

variable {proc next : PagingProc Proc}

theorem moves_pgread {junk : Junk} {source destination : Word32} {offset : Addr} {status : Int}
    (hdirectories : proc.krnl.mm.HasDirectories)
    (hread : pgread junk proc source offset destination = .ok (status, next)) :
    proc.krnl.Moves next.krnl ((PagingCall.read source offset destination).transfer junk proc) := by
  obtain ⟨base, hbase⟩ := reg_of_pgread hread
  obtain ⟨walked, hentry, hwalkedDirectories, hleaf, hfifo⟩ :=
    hdirectories.pteGetEntry (pagingPgn (base + offset))
  have hwalk : proc.krnl.SameOwners { proc.krnl with mm := walked } := sameOwners_of_leaf hleaf
  rw [pgread_eq junk destination hbase hentry] at hread
  unfold PagingCall.transfer
  simp only [hbase]
  split at hread
  next hpresent =>
    rw [if_neg fun hbrings => absurd (hbrings.1.symm.trans hpresent) (by decide)]
    exact (hwalk.trans (sameOwners_pgreadByte hwalkedDirectories hread)).moves
  next hpresent =>
    split at hread
    next hswapped =>
      rw [if_pos ⟨Bool.eq_false_iff.mpr hpresent, hswapped⟩]
      obtain ⟨⟨vicfpn, framed⟩, hframe, hread⟩ := bind_eq_ok.mp hread
      obtain ⟨back, hback, hread⟩ := bind_eq_ok.mp hread
      obtain ⟨hframedDirectories, hmoves, -⟩ := moves_victimFrame hwalkedDirectories hframe
      obtain ⟨hsame, hbackMm⟩ := sameOwners_swapBack hback
      rw [← hbackMm] at hframedDirectories
      rw [← forFrame_congr junk hleaf hfifo]
      exact hmoves.between hwalk ((hsame.trans (sameOwners_enlistPgn back _)).trans
        (sameOwners_pgreadByte hframedDirectories hread))
    next hswapped =>
      rw [if_neg fun hbrings => hswapped hbrings.2]
      obtain rfl := (Prod.mk.inj (Except.ok.inj hread)).2
      exact hwalk.moves

theorem moves_pgwrite {junk : Junk} {data : Byte} {destination : Word32} {offset : Addr}
    {status : Int} (hdirectories : proc.krnl.mm.HasDirectories)
    (hwrite : pgwrite junk proc data destination offset = .ok (status, next)) :
    proc.krnl.Moves next.krnl
      ((PagingCall.write data destination offset).transfer junk proc) := by
  obtain ⟨base, hbase⟩ := reg_of_pgwrite hwrite
  obtain ⟨walked, hpte, hwalkedDirectories, hleaf, hfifo⟩ :=
    hdirectories.pteGetEntry (pagingPgn (base + offset))
  have hwalk : proc.krnl.SameOwners { proc.krnl with mm := walked } := sameOwners_of_leaf hleaf
  rw [pgwrite_eq junk data hbase hpte] at hwrite
  unfold PagingCall.transfer
  simp only [hbase]
  split at hwrite
  next hpresent =>
    rw [if_neg fun hbrings => absurd (hbrings.1.symm.trans hpresent) (by decide)]
    exact (hwalk.trans (sameOwners_pgwriteByte hwalkedDirectories hwrite)).moves
  next hpresent =>
    split at hwrite
    next hswapped =>
      have hbrings : proc.krnl.BringsIn (pagingPgn (base + offset)) :=
        ⟨Bool.eq_false_iff.mpr hpresent, hswapped⟩
      rw [if_pos hbrings]
      obtain ⟨⟨vicfpn, framed⟩, hframe, hwrite⟩ := bind_eq_ok.mp hwrite
      obtain ⟨back, hback, hwrite⟩ := bind_eq_ok.mp hwrite
      obtain ⟨mm, hmm, hwrite⟩ := bind_eq_ok.mp hwrite
      obtain ⟨hframedDirectories, hmoves, hentry⟩ := moves_victimFrame hwalkedDirectories hframe
      obtain ⟨hsame, hbackMm⟩ := sameOwners_swapBack hback
      rw [← hbackMm] at hframedDirectories hentry
      unfold MmStruct.pteSetFpn at hmm
      have habsent : pteFrame (walked.pte (pagingPgn (base + offset))) = none := by
        rw [MmStruct.pte_congr hleaf]
        exact pteFrame_of_bringsIn hbrings
      have hset := moves_updatePte hmm
      rw [hentry _ _ habsent, forEntry_congr junk hleaf hfifo] at hset
      rw [forFrame_congr junk hleaf hfifo] at hmoves
      exact ((hmoves.between hwalk hsame).trans hset).between (SameOwners.refl _)
        ((sameOwners_enlistPgn _ _).trans
          (sameOwners_pgwriteByte (hframedDirectories.updatePte hmm).1 hwrite))
    next hswapped =>
      rw [if_neg fun hbrings => hswapped hbrings.2]
      obtain rfl := (Prod.mk.inj (Except.ok.inj hwrite)).2
      exact hwalk.moves

theorem exists_two_of_append {pages listed : List Addr} {vicpgn : Addr} (hpages : pages ≠ [])
    (hfifo : listed = pages ++ [vicpgn]) :
    ∃ first second rest, listed = first :: second :: rest := by
  obtain ⟨first, rest, rfl⟩ := List.exists_cons_of_ne_nil hpages
  obtain ⟨second, last, hrest⟩ := List.exists_cons_of_ne_nil (List.concat_ne_nil vicpgn rest)
  exact ⟨first, second, last, by rw [hfifo, List.cons_append, hrest]⟩

theorem moves_pgGetpage {krnl after : Krnl Proc} {pgn : Addr} {fpn : Option Word32}
    (hdirectories : krnl.mm.HasDirectories) (hget : pgGetpage krnl pgn = .ok (fpn, after)) :
    krnl.Moves after
      (if pagingPagePresent (krnl.mm.pte pgn) then {}
      else
        match krnl.mm.fifoPgn with
        | _ :: _ :: _ => { slotsTaken := (krnl.firstSlot.map BitVec.toNat).toList }
        | _ => {}) := by
  have hcase := getPageCase hdirectories pgn
  rw [hget] at hcase
  cases hcase with
  | present hpresent hwalked =>
      rw [if_pos hpresent]
      exact (sameOwners_of_leaf hwalked.leaf).moves
  | noVictim habsent hfifo hwalked =>
      rw [if_neg (Bool.eq_false_iff.mp habsent), hfifo]
      exact (sameOwners_of_leaf hwalked.leaf).moves
  | noSlot habsent hpages hfifo hslots hwalked =>
      obtain ⟨first, second, rest, htwo⟩ := exists_two_of_append hpages hfifo
      rw [if_neg (Bool.eq_false_iff.mp habsent), htwo]
      refine moves_of_free hwalked.leaf rfl rfl (List.nil_append _).symm ?_
      unfold firstSlot
      rw [hslots]
      rfl
  | listed habsent hpages hfifo hslots hwalked =>
      obtain ⟨first, second, rest, htwo⟩ := exists_two_of_append hpages hfifo
      rw [if_neg (Bool.eq_false_iff.mp habsent), htwo]
      refine moves_of_free hwalked.leaf rfl rfl (List.nil_append _).symm ?_
      unfold MemphyStruct.freeNumbers firstSlot
      rw [hslots]
      rfl

theorem PagingCall.moves_run {junk : Junk} {call : PagingCall} {after : PagingProc Proc}
    (hdirectories : proc.krnl.mm.HasDirectories) (hrun : call.run junk proc = .ok after) :
    proc.krnl.Moves after.krnl (call.transfer junk proc) := by
  cases call with
  | getpage pgn =>
      obtain ⟨⟨fpn, krnl⟩, hget, rfl⟩ := map_eq_ok.mp hrun
      exact moves_pgGetpage hdirectories hget
  | read source offset destination =>
      obtain ⟨⟨status, next⟩, hread, rfl⟩ := map_eq_ok.mp hrun
      exact moves_pgread hdirectories hread
  | write data destination offset =>
      obtain ⟨⟨status, next⟩, hwrite, rfl⟩ := map_eq_ok.mp hrun
      exact moves_pgwrite hdirectories hwrite

end SimpleOs
