import SimpleOs.Foundation.Runs
import SimpleOs.Kernel.FrameMoves

/-! # Ownership of frames and slots

A RAM frame is free or owned by the page whose entry names it, and so is a swap slot. This
survives a call as long as the call has no page to make resident: `pg_getpage` forgets the
slot that it takes, `pgread` the frame, and `pgwrite` the slot of the page. Otherwise it
survives only where the numbers involved are none of the devices, or happen to agree.
-/

namespace SimpleOs

open Custody

variable {Proc : Type}

namespace Krnl

/-- Each RAM frame and each slot is once in its free list or owned by exactly one page. -/
structure Owned (krnl : Krnl Proc) : Prop where
  frames : Kept (Set.Iio krnl.mram.numfp) krnl.mram.freeNumbers krnl.mm.frameOf
  slots : Kept (Set.Iio krnl.activeMswp.numfp) krnl.activeMswp.freeNumbers krnl.mm.slotOf

end Krnl

namespace Krnl

/-- When `pgread` brings a page in, the first free frame must be no frame of the device.
Without a free frame the first listed page must have none either, and of the slots the first
free one and that of the page must make up for its new one. -/
def KeepsFrame (junk : Junk) (krnl : Krnl Proc) : Prop :=
  match krnl.mram.freeFpList.nodes, krnl.mm.fifoPgn with
  | fpn :: _, _ => krnl.mram.numfp ≤ fpn.toNat
  | [], [] => True
  | [], vicpgn :: _ =>
      (∀ fpn, pteFrame (krnl.mm.pte vicpgn) = some fpn → krnl.mram.numfp ≤ fpn) ∧
        Balanced (Set.Iio krnl.activeMswp.numfp)
          ((krnl.firstSlot.map BitVec.toNat).toList ++ (pteSlot (krnl.mm.pte vicpgn)).toList)
          [krnl.victimSlot junk]

/-- When `pgwrite` brings a page in, the frame must fit its field, and the page must have no
slot of the device. Without a free frame the first listed page must own the frame in its
entry, and the slot of the page counts among those to be made up for. -/
def KeepsEntry (junk : Junk) (krnl : Krnl Proc) (pgn : Addr) : Prop :=
  match krnl.mram.freeFpList.nodes, krnl.mm.fifoPgn with
  | fpn :: _, _ =>
      Balanced (Set.Iio krnl.mram.numfp) [fpn.toNat] [fpn.toNat % 2 ^ 13] ∧
        ∀ slot, pteSlot (krnl.mm.pte pgn) = some slot → krnl.activeMswp.numfp ≤ slot
  | [], [] => True
  | [], vicpgn :: _ =>
      Balanced (Set.Iio krnl.mram.numfp) (pteFrame (krnl.mm.pte vicpgn)).toList
          [(pagingFpn (krnl.mm.pte vicpgn)).toNat] ∧
        Balanced (Set.Iio krnl.activeMswp.numfp)
          ((krnl.firstSlot.map BitVec.toNat).toList ++ (pteSlot (krnl.mm.pte vicpgn)).toList ++
            if pageOf vicpgn = pageOf pgn then [krnl.victimSlot junk]
            else (pteSlot (krnl.mm.pte pgn)).toList)
          [krnl.victimSlot junk]

end Krnl

/-- The condition on a call, in the state before it. The page is present, or `pg_getpage`
finds no victim or no slot of the device, or `pgread` and `pgwrite` find the page nowhere.
A page that is brought in needs the numbers involved to make up for each other. -/
def PagingCall.Keeps (junk : Junk) (proc : PagingProc Proc) : PagingCall → Prop
  | .getpage pgn =>
      pagingPagePresent (proc.krnl.mm.pte (pgn.signExtend 64)) = true ∨
        proc.krnl.mm.fifoPgn.length < 2 ∨
          ∀ slot, proc.krnl.firstSlot = some slot → proc.krnl.activeMswp.numfp ≤ slot.toNat
  | .read source offset _ =>
      ∀ base, proc.reg source = .ok base → proc.krnl.BringsIn (pagingPgn (base + offset)) →
        proc.krnl.KeepsFrame junk
  | .write _ destination offset =>
      ∀ base, proc.reg destination = .ok base →
        proc.krnl.BringsIn (pagingPgn (base + offset)) →
          proc.krnl.KeepsEntry junk (pagingPgn (base + offset))

variable {proc : PagingProc Proc}

/-! ## The condition and the transfer -/

/-- The transfer loses no number of a device and hands out none twice. -/
structure Transfer.Fair (transfer : Transfer) (krnl : Krnl Proc) : Prop where
  frames : Balanced (Set.Iio krnl.mram.numfp) transfer.framesTaken transfer.framesPut
  slots : Balanced (Set.Iio krnl.activeMswp.numfp) transfer.slotsTaken transfer.slotsPut

theorem Transfer.fair_empty (krnl : Krnl Proc) : Transfer.Fair {} krnl :=
  ⟨fun _ _ => rfl, fun _ _ => rfl⟩

namespace Krnl

variable {krnl after : Krnl Proc}

/-- Numbers that are taken and put nowhere must not be numbers of a device. -/
theorem balanced_toList_iff {count : Nat} {number : Option Nat} :
    Balanced (Set.Iio count) number.toList [] ↔ ∀ found, number = some found → count ≤ found := by
  rw [balanced_nil_iff]
  simp only [Option.mem_toList, Set.mem_Iio, not_lt]

theorem fair_forFrame_iff (junk : Junk) (krnl : Krnl Proc) :
    (krnl.forFrame junk).Fair krnl ↔ krnl.KeepsFrame junk := by
  unfold forFrame KeepsFrame
  cases hnodes : krnl.mram.freeFpList.nodes with
  | cons fpn rest =>
      have htaken := @balanced_toList_iff krnl.mram.numfp (some fpn.toNat)
      simp only [Option.toList_some, Option.some.injEq, forall_eq'] at htaken
      exact ⟨fun hfair => htaken.mp hfair.frames,
        fun hle => ⟨htaken.mpr hle, fun _ _ => rfl⟩⟩
  | nil =>
      cases hfifo : krnl.mm.fifoPgn with
      | nil => exact iff_of_true (Transfer.fair_empty krnl) trivial
      | cons vicpgn pages =>
          have htaken := @balanced_toList_iff krnl.mram.numfp (pteFrame (krnl.mm.pte vicpgn))
          exact ⟨fun hfair => ⟨htaken.mp hfair.frames, hfair.slots⟩,
            fun h => ⟨htaken.mpr h.1, h.2⟩⟩

theorem fair_forEntry_iff (junk : Junk) (krnl : Krnl Proc) (pgn : Addr) :
    ((krnl.forFrame junk).append (krnl.forEntry junk pgn)).Fair krnl ↔
      krnl.KeepsEntry junk pgn := by
  unfold forFrame forEntry KeepsEntry
  cases hnodes : krnl.mram.freeFpList.nodes with
  | cons fpn rest =>
      have htaken := @balanced_toList_iff krnl.activeMswp.numfp (pteSlot (krnl.mm.pte pgn))
      exact ⟨fun hfair => ⟨hfair.frames, htaken.mp hfair.slots⟩,
        fun h => ⟨h.1, htaken.mpr h.2⟩⟩
  | nil =>
      cases hfifo : krnl.mm.fifoPgn with
      | nil => exact iff_of_true (Transfer.fair_empty krnl) trivial
      | cons vicpgn pages =>
          unfold Transfer.append
          simp only [List.append_nil, List.nil_append]
          exact ⟨fun hfair => ⟨hfair.frames, hfair.slots⟩, fun h => ⟨h.1, h.2⟩⟩

/-- Ownership after a step is a matter of what the step takes and puts. -/
theorem owned_iff_of_moves {transfer : Transfer} (howned : krnl.Owned)
    (hmoves : krnl.Moves after transfer) : after.Owned ↔ transfer.Fair krnl := by
  have hafter : after.Owned ↔
      Kept (Set.Iio krnl.mram.numfp) after.mram.freeNumbers after.mm.frameOf ∧
        Kept (Set.Iio krnl.activeMswp.numfp) after.activeMswp.freeNumbers after.mm.slotOf := by
    rw [← hmoves.mram_numfp, ← hmoves.mswp_numfp]
    exact ⟨fun h => ⟨h.frames, h.slots⟩, fun h => ⟨h.1, h.2⟩⟩
  rw [hafter, kept_iff_balanced howned.frames hmoves.frames,
    kept_iff_balanced howned.slots hmoves.slots]
  exact ⟨fun h => ⟨h.1, h.2⟩, fun h => ⟨h.frames, h.slots⟩⟩

end Krnl

open Krnl

theorem PagingCall.fair_transfer_iff (junk : Junk) (proc : PagingProc Proc)
    (call : PagingCall) : (call.transfer junk proc).Fair proc.krnl ↔ call.Keeps junk proc := by
  cases call with
  | getpage pgn =>
      unfold PagingCall.transfer PagingCall.Keeps
      simp only
      split
      next hpresent => exact iff_of_true (Transfer.fair_empty _) (Or.inl hpresent)
      next habsent =>
        rw [or_iff_right habsent]
        split
        next first second rest hfifo =>
          have hlong : ¬ proc.krnl.mm.fifoPgn.length < 2 := by
            rw [hfifo]
            simp
          rw [or_iff_right hlong]
          have htaken := @balanced_toList_iff proc.krnl.activeMswp.numfp
            (proc.krnl.firstSlot.map BitVec.toNat)
          simp only [Option.map_eq_some_iff, forall_exists_index, and_imp,
            forall_apply_eq_imp_iff₂] at htaken
          exact ⟨fun hfair => htaken.mp hfair.slots,
            fun hslots => ⟨fun _ _ => rfl, htaken.mpr hslots⟩⟩
        next hshort =>
          refine iff_of_true (Transfer.fair_empty _) (Or.inl ?_)
          match hfifo : proc.krnl.mm.fifoPgn with
          | [] => simp
          | [_] => simp
          | first :: second :: rest => exact absurd hfifo (hshort first second rest)
  | read source offset destination =>
      unfold PagingCall.transfer PagingCall.Keeps
      simp only
      split
      next fault hfault =>
        exact iff_of_true (Transfer.fair_empty _) fun base hbase => by
          rw [hfault] at hbase
          cases hbase
      next base hbase =>
        simp only [hbase, Except.ok.injEq, forall_eq']
        split
        next hbrings => rw [fair_forFrame_iff, imp_iff_right hbrings]
        next hbrings => exact iff_of_true (Transfer.fair_empty _) fun h => absurd h hbrings
  | write data destination offset =>
      unfold PagingCall.transfer PagingCall.Keeps
      simp only
      split
      next fault hfault =>
        exact iff_of_true (Transfer.fair_empty _) fun base hbase => by
          rw [hfault] at hbase
          cases hbase
      next base hbase =>
        simp only [hbase, Except.ok.injEq, forall_eq']
        split
        next hbrings => rw [fair_forEntry_iff, imp_iff_right hbrings]
        next hbrings => exact iff_of_true (Transfer.fair_empty _) fun h => absurd h hbrings

/-! ## Ordinary states -/

/-- Free lists and swapped entries name only slots and frames of the devices. When no frame
is free there is a listed page in a frame to make room, and a slot for it. -/
structure Krnl.Ordinary (krnl : Krnl Proc) : Prop where
  free_frame : ∀ fpn ∈ krnl.mram.freeFpList.nodes, fpn.toNat < krnl.mram.numfp
  free_slot : ∀ slot ∈ krnl.activeMswp.freeFpList.nodes, slot.toNat < krnl.activeMswp.numfp
  used_slot : ∀ pgn slot, pteSlot (krnl.mm.pte pgn) = some slot → slot < krnl.activeMswp.numfp
  room : krnl.mram.freeFpList.nodes = [] → ∃ vicpgn pages fpn slot,
    krnl.mm.fifoPgn = vicpgn :: pages ∧ pteFrame (krnl.mm.pte vicpgn) = some fpn ∧
      fpn < krnl.mram.numfp ∧ krnl.firstSlot = some slot

/-- The call has to make a page resident: `pg_getpage` has a victim and a slot, `pgread` and
`pgwrite` find the page in its slot. -/
def PagingCall.Serves (proc : PagingProc Proc) : PagingCall → Prop
  | .getpage pgn =>
      pagingPagePresent (proc.krnl.mm.pte (pgn.signExtend 64)) = false ∧
        2 ≤ proc.krnl.mm.fifoPgn.length ∧ proc.krnl.firstSlot.isSome = true
  | .read source offset _ =>
      ∃ base, proc.reg source = .ok base ∧ proc.krnl.BringsIn (pagingPgn (base + offset))
  | .write _ destination offset =>
      ∃ base, proc.reg destination = .ok base ∧ proc.krnl.BringsIn (pagingPgn (base + offset))

namespace Krnl

variable {krnl : Krnl Proc}

theorem Ordinary.firstSlot_lt (hordinary : krnl.Ordinary) {slot : Addr}
    (hslot : krnl.firstSlot = some slot) : slot.toNat < krnl.activeMswp.numfp :=
  hordinary.free_slot slot (List.mem_of_head? hslot)

/-- Getting a frame takes one of the device, which `pgread` puts nowhere. -/
theorem Ordinary.not_keepsFrame (hordinary : krnl.Ordinary) (junk : Junk) :
    ¬ krnl.KeepsFrame junk := by
  intro hkeeps
  unfold KeepsFrame at hkeeps
  cases hnodes : krnl.mram.freeFpList.nodes with
  | cons fpn rest =>
      simp only [hnodes] at hkeeps
      have hlt := hordinary.free_frame fpn (hnodes ▸ List.mem_cons_self)
      omega
  | nil =>
      obtain ⟨vicpgn, pages, fpn, slot, hfifo, hframe, hlt, -⟩ := hordinary.room hnodes
      simp only [hnodes, hfifo] at hkeeps
      have hle := hkeeps.1 fpn hframe
      omega

/-- `pgwrite` forgets the slot of its page, and a slot more when it needs a victim. -/
theorem Ordinary.not_keepsEntry (hordinary : krnl.Ordinary) (junk : Junk) {pgn : Addr}
    (hbrings : krnl.BringsIn pgn) : ¬ krnl.KeepsEntry junk pgn := by
  intro hkeeps
  obtain ⟨slot, hslot⟩ : ∃ slot, pteSlot (krnl.mm.pte pgn) = some slot := by
    unfold pteSlot
    rw [if_pos hbrings.2]
    exact ⟨_, rfl⟩
  have hslotLt := hordinary.used_slot pgn slot hslot
  unfold KeepsEntry at hkeeps
  cases hnodes : krnl.mram.freeFpList.nodes with
  | cons fpn rest =>
      simp only [hnodes] at hkeeps
      have hle := hkeeps.2 slot hslot
      omega
  | nil =>
      obtain ⟨vicpgn, pages, fpn, free, hfifo, hframe, -, hfree⟩ := hordinary.room hnodes
      have hother : pageOf vicpgn ≠ pageOf pgn := by
        intro hpage
        rw [← MmStruct.frameOf_pageOf, hpage, MmStruct.frameOf_pageOf,
          pteFrame_of_bringsIn hbrings] at hframe
        cases hframe
      simp only [hnodes, hfifo, hfree, hslot, pteSlot_of_pteFrame hframe, if_neg hother,
        Option.map_some, Option.toList_some, Option.toList_none, List.append_nil] at hkeeps
      have hbalanced := hkeeps.2
      have hfreePut := hbalanced.mem_put (hordinary.firstSlot_lt hfree) (by simp)
      have hslotPut := hbalanced.mem_put hslotLt (by simp)
      rw [List.mem_singleton] at hfreePut hslotPut
      -- one number is put for two that are taken
      have hcount := hbalanced slot hslotLt
      rw [hfreePut, ← hslotPut] at hcount
      simp at hcount

end Krnl

/-- In an ordinary state a call keeps ownership exactly when it has no page to make
resident. -/
theorem PagingCall.keeps_iff_of_ordinary (junk : Junk) (call : PagingCall)
    (hordinary : proc.krnl.Ordinary) : call.Keeps junk proc ↔ ¬ call.Serves proc := by
  cases call with
  | getpage pgn =>
      constructor
      · rintro (hpresent | hshort | hslots) ⟨habsent, htwo, hsome⟩
        · rw [hpresent] at habsent
          cases habsent
        · omega
        · obtain ⟨slot, hslot⟩ := Option.isSome_iff_exists.mp hsome
          have hle := hslots slot hslot
          have hlt := hordinary.firstSlot_lt hslot
          omega
      · intro hserves
        by_contra hkeeps
        unfold PagingCall.Keeps at hkeeps
        simp only [not_or, not_lt, Bool.not_eq_true] at hkeeps
        obtain ⟨habsent, htwo, hslots⟩ := hkeeps
        refine hserves ⟨habsent, htwo, ?_⟩
        cases hslot : proc.krnl.firstSlot with
        | some slot => rfl
        | none => exact absurd (fun slot h => by rw [hslot] at h; cases h) hslots
  | read source offset destination =>
      constructor
      · rintro hkeeps ⟨base, hbase, hbrings⟩
        exact hordinary.not_keepsFrame junk (hkeeps base hbase hbrings)
      · exact fun hserves base hbase hbrings => absurd ⟨base, hbase, hbrings⟩ hserves
  | write data destination offset =>
      constructor
      · rintro hkeeps ⟨base, hbase, hbrings⟩
        exact hordinary.not_keepsEntry junk hbrings (hkeeps base hbase hbrings)
      · exact fun hserves base hbase hbrings => absurd ⟨base, hbase, hbrings⟩ hserves

/-! ## Ownership -/

/-- Ownership survives a call exactly under the condition. -/
theorem PagingCall.owned_iff_keeps (junk : Junk) {call : PagingCall} {after : PagingProc Proc}
    (hdirectories : proc.krnl.mm.HasDirectories) (howned : proc.krnl.Owned)
    (hrun : call.run junk proc = .ok after) : after.krnl.Owned ↔ call.Keeps junk proc := by
  rw [owned_iff_of_moves howned (PagingCall.moves_run hdirectories hrun)]
  exact call.fair_transfer_iff junk proc

/-- Page 1 in frame 0. -/
def pageOne : PageDirectory :=
  Radix.modify 0 (fpnEntry 0) 4 (Radix.fresh 0 4) (getPdFromPagenum 1)

/-- And page 2 in frame 1. -/
def pagesOneTwo : PageDirectory :=
  Radix.modify 0 (fpnEntry 1) 4 pageOne (getPdFromPagenum 2)

/-- Both RAM frames are in use, and the one slot is free. -/
def fullRam : Krnl Unit where
  runningList := ProcQueue.zero
  mm :=
    { initMm .null with
      pgd := some pagesOneTwo
      pt := some fun _ => 0
      fifoPgn := [2, 1] }
  mram :=
    { storage := List.replicate 512 0
      maxsz := 512
      rdmflg := true
      cursor := 0
      freeFpList := { nodes := [], stop := .null } }
  activeMswp :=
    { storage := List.replicate 256 0
      maxsz := 256
      rdmflg := true
      cursor := 0
      freeFpList := { nodes := [0], stop := .null } }

/-- What the entries of `fullRam` name. -/
theorem owners_fullRam :
    fullRam.mm.frameOf =
        Function.update (Function.update (fun _ => none) (pageOf 1) (some 0)) (pageOf 2) (some 1) ∧
      fullRam.mm.slotOf = fun _ => none := by
  have hfirst : (initMm .null).updatePte 1 (fpnEntry 0) =
      .ok { initMm .null with pgd := some pageOne } := rfl
  have hsecond : ({ initMm .null with pgd := some pageOne } : MmStruct).updatePte 2 (fpnEntry 1) =
      .ok { initMm .null with pgd := some pagesOneTwo } := rfl
  have hleaf : fullRam.mm.leaf =
      ({ initMm .null with pgd := some pagesOneTwo } : MmStruct).leaf := rfl
  have hframes : (initMm .null).frameOf = fun _ => none := by
    funext page
    unfold MmStruct.frameOf MmStruct.pte
    rw [MmStruct.leaf_initMm]
    rfl
  have hslots : (initMm .null).slotOf = fun _ => none := by
    funext page
    unfold MmStruct.slotOf MmStruct.pte
    rw [MmStruct.leaf_initMm]
    rfl
  refine ⟨?_, ?_⟩
  · rw [MmStruct.frameOf_congr hleaf, MmStruct.frameOf_updatePte hsecond,
      MmStruct.frameOf_updatePte hfirst, hframes, pteFrame_fpnEntry, pteFrame_fpnEntry]
    rfl
  · rw [MmStruct.slotOf_congr hleaf, MmStruct.slotOf_updatePte hsecond,
      MmStruct.slotOf_updatePte hfirst, hslots, pteSlot_fpnEntry, pteSlot_fpnEntry]
    simp

theorem owned_fullRam : fullRam.Owned := by
  obtain ⟨hframeOf, hslotOf⟩ := owners_fullRam
  refine { frames := fun fpn hfpn => Or.inr ⟨rfl, ?_⟩, slots := fun slot hslot => Or.inl ?_ }
  · have hpages : pageOf 1 ≠ pageOf 2 := by decide
    have htwo : fpn = 0 ∨ fpn = 1 := by
      have hlt : fpn < 2 := hfpn
      omega
    generalize pageOf 1 = first at hframeOf hpages
    generalize pageOf 2 = second at hframeOf hpages
    rw [hframeOf]
    rcases htwo with rfl | rfl
    · refine ⟨first, ?_, fun page hpage => ?_⟩
      · simp [hpages]
      · by_contra hother
        simp [Function.update_apply, hother] at hpage
    · refine ⟨second, ?_, fun page hpage => ?_⟩
      · simp
      · by_contra hother
        simp [Function.update_apply, hother] at hpage
  · have hzero : slot = 0 := Nat.lt_one_iff.mp hslot
    rw [hzero, hslotOf]
    exact ⟨rfl, nofun⟩

/-- `pg_getpage` of a page that is present. -/
theorem PagingCall.owned_iff_keeps_fullRam :
    ∃ after, (PagingCall.getpage 1).run ⟨0, 0, 0⟩ { regs := fun _ => 0, krnl := fullRam } =
        .ok after ∧ after.krnl.Owned := by
  have hcompletes : ((PagingCall.getpage 1).run ⟨0, 0, 0⟩
      { regs := fun _ => 0, krnl := fullRam }).toOption.isSome = true := by
    decide +kernel
  obtain ⟨after, hrun⟩ := Option.isSome_iff_exists.mp hcompletes
  rw [Runs.toOption_eq_some_iff] at hrun
  refine ⟨after, hrun, ?_⟩
  refine (PagingCall.owned_iff_keeps ⟨0, 0, 0⟩ ?_ owned_fullRam hrun).mpr (Or.inl ?_)
  · decide
  · decide +kernel

/-- `pg_getpage` of a third page takes the slot and puts it nowhere. -/
theorem PagingCall.not_owned_fullRam :
    ∃ after, (PagingCall.getpage 3).run ⟨0, 0, 0⟩ { regs := fun _ => 0, krnl := fullRam } =
        .ok after ∧ fullRam.mm.HasDirectories ∧ fullRam.Owned ∧ ¬ after.krnl.Owned := by
  have hcompletes : ((PagingCall.getpage 3).run ⟨0, 0, 0⟩
      { regs := fun _ => 0, krnl := fullRam }).toOption.isSome = true := by
    decide +kernel
  obtain ⟨after, hrun⟩ := Option.isSome_iff_exists.mp hcompletes
  rw [Runs.toOption_eq_some_iff] at hrun
  have hdirectories : fullRam.mm.HasDirectories := by decide
  refine ⟨after, hrun, hdirectories, owned_fullRam, fun howned => ?_⟩
  have hmoves := PagingCall.moves_run hdirectories hrun
  have hfair := (Krnl.owned_iff_of_moves owned_fullRam hmoves).mp howned
  rcases (PagingCall.fair_transfer_iff _ _ _).mp hfair with hpresent | hshort | hslots
  · revert hpresent
    decide +kernel
  · revert hshort
    decide
  · exact absurd (hslots 0 rfl) (by decide)

end SimpleOs
