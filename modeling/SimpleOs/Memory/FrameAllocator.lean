import Mathlib.Data.List.Nodup
import SimpleOs.Foundation.Runs
import SimpleOs.Memory.Memphy

/-! # The frames of a device

A user of a device takes free frames and puts back frames that it holds. Whether frames
are then conserved is decided when the device is initialized: `MEMPHY_format` leaves the
previous free list in place when the device has no whole frame, and the link of a single
frame as `malloc` returned it.
-/

namespace SimpleOs

/-- The frame numbers of a device of the given size. -/
def framesOf (maxSize : Addr) : List Addr :=
  (List.range (maxSize.toNat / pagingPagesz)).map (BitVec.ofNat 64)

/-- A device together with the frames that its users hold. -/
structure FrameUse where
  device : MemphyStruct
  held : List Addr

/-- The calls of the users. -/
inductive FrameCall where
  | get
  | put (fpn : Addr)
  deriving DecidableEq

namespace FrameUse

/-- One call. A frame that is not held cannot be put back, and a call whose behaviour is
undefined has no next state. -/
def step (use : FrameUse) : FrameCall → Option FrameUse
  | .get =>
      use.device.getFreefp.toOption.map fun (fpn, device) =>
        { device := device, held := fpn.toList ++ use.held }
  | .put fpn =>
      if fpn ∈ use.held then
        some { device := use.device.putFreefp fpn, held := use.held.erase fpn }
      else none

/-- Held and free frames together are the frames of the device, each of them once. The
next frame handed out is a frame of the device that nobody holds, and a request fails
exactly when all frames are held. -/
structure Conserved (maxSize : Addr) (use : FrameUse) : Prop where
  partition : (use.held ++ use.device.freeFpList.nodes).Perm (framesOf maxSize)
  granted : ∀ fpn device, use.device.getFreefp = .ok (some fpn, device) →
    fpn.toNat < maxSize.toNat / pagingPagesz ∧ fpn ∉ use.held
  refused : use.device.getFreefp = .ok (none, use.device) ↔
    ∀ fpn : Addr, fpn.toNat < maxSize.toNat / pagingPagesz → fpn ∈ use.held

/-- The initialization leaves a list of all frames that ends in `NULL`. A device with a
whole frame gets a new list, whose only link is never written when it has one node; the
size is narrowed to `int` first. Any other device keeps the list that it had. -/
def FormatsWhole (mp : MemphyStruct) (maxSize : Addr) (garbage : ListEnd) : Prop :=
  if toCInt maxSize < pagingPagesz then
    mp.freeFpList.stop = .null ∧ mp.freeFpList.nodes.Perm (framesOf maxSize)
  else maxSize.toNat < 2 ^ 31 ∧ (maxSize.toNat < 2 * pagingPagesz → garbage = .null)

variable {maxSize : Addr} {use next : FrameUse} {call : FrameCall}

/-! ## Frame numbers -/

theorem framesOf_bound (maxSize : Addr) : maxSize.toNat / pagingPagesz < 2 ^ 64 :=
  Nat.lt_of_le_of_lt (Nat.div_le_self _ _) maxSize.isLt

theorem mem_framesOf {fpn : Addr} :
    fpn ∈ framesOf maxSize ↔ fpn.toNat < maxSize.toNat / pagingPagesz := by
  have hbound := framesOf_bound maxSize
  unfold framesOf
  rw [List.mem_map]
  constructor
  · rintro ⟨number, hnumber, rfl⟩
    rw [List.mem_range] at hnumber
    rw [BitVec.toNat_ofNat, Nat.mod_eq_of_lt (by omega)]
    exact hnumber
  · intro hlt
    exact ⟨fpn.toNat, List.mem_range.mpr hlt, BitVec.ofNat_toNat 64 fpn ▸ BitVec.setWidth_eq fpn⟩

theorem framesOf_nodup (maxSize : Addr) : (framesOf maxSize).Nodup := by
  have hbound := framesOf_bound maxSize
  refine List.Nodup.map_on (fun first hfirst second hsecond heq => ?_) List.nodup_range
  rw [List.mem_range] at hfirst hsecond
  have hnumbers := congrArg BitVec.toNat heq
  rwa [BitVec.toNat_ofNat, BitVec.toNat_ofNat, Nat.mod_eq_of_lt (by omega),
    Nat.mod_eq_of_lt (by omega)] at hnumbers

/-! ## The invariant of all calls -/

/-- The partition, with a list that a request can follow to its end. -/
structure Whole (maxSize : Addr) (use : FrameUse) : Prop where
  terminated : use.device.freeFpList.stop = .null
  partition : (use.held ++ use.device.freeFpList.nodes).Perm (framesOf maxSize)

theorem Whole.step (hwhole : Whole maxSize use) (hstep : use.step call = some next) :
    Whole maxSize next := by
  cases call with
  | get =>
      obtain ⟨⟨fpn, device⟩, hget, rfl⟩ := Option.map_eq_some_iff.mp hstep
      rw [Runs.toOption_eq_some_iff] at hget
      cases fpn with
      | none =>
          obtain ⟨-, rfl⟩ := MemphyStruct.getFreefp_eq_none hget
          exact hwhole
      | some fpn =>
          obtain ⟨hfirst, rfl⟩ := MemphyStruct.getFreefp_eq_ok hget
          obtain ⟨rest, hnodes⟩ := List.head?_eq_some_iff.mp hfirst.symm
          refine { terminated := hwhole.terminated, partition := ?_ }
          have hpartition := hwhole.partition
          rw [hnodes] at hpartition ⊢
          exact List.perm_middle.symm.trans hpartition
  | put fpn =>
      simp only [FrameUse.step] at hstep
      split at hstep
      next hheld =>
        cases hstep
        refine { terminated := hwhole.terminated, partition := ?_ }
        have herase : (use.held.erase fpn ++ fpn :: use.device.freeFpList.nodes).Perm
            (use.held ++ use.device.freeFpList.nodes) :=
          List.perm_middle.trans ((List.perm_cons_erase hheld).symm.append_right _)
        exact herase.trans hwhole.partition
      next => cases hstep

theorem Whole.conserved (hwhole : Whole maxSize use) : Conserved maxSize use := by
  have hnodup := hwhole.partition.nodup_iff.mpr (framesOf_nodup maxSize)
  refine { partition := hwhole.partition, granted := ?_, refused := ?_ }
  · intro fpn device hget
    have hmem := List.mem_of_head? (MemphyStruct.getFreefp_eq_ok hget).1.symm
    refine ⟨mem_framesOf.mp (hwhole.partition.subset (List.mem_append_right _ hmem)), ?_⟩
    exact fun hheld => (List.nodup_append.mp hnodup).2.2 fpn hheld fpn hmem rfl
  · constructor
    · intro hget fpn hlt
      have hnil := (MemphyStruct.getFreefp_eq_none hget).1
      have hmem := hwhole.partition.mem_iff.mpr (mem_framesOf.mpr hlt)
      rwa [hnil, List.append_nil] at hmem
    · intro hall
      have hnil : use.device.freeFpList.nodes = [] := by
        refine List.eq_nil_iff_forall_not_mem.mpr fun fpn hmem => ?_
        have hlt := mem_framesOf.mp (hwhole.partition.subset (List.mem_append_right _ hmem))
        exact (List.nodup_append.mp hnodup).2.2 fpn (hall fpn hlt) fpn hmem rfl
      unfold MemphyStruct.getFreefp
      rw [hnil, hwhole.terminated]
      rfl

/-! ## Taking every frame -/

/-- Requests alone reach a state in which the list has no node left. -/
theorem exists_exhausted (use : FrameUse) :
    ∃ calls final, Runs.run FrameUse.step use calls = some final ∧
      final.device.freeFpList = { nodes := [], stop := use.device.freeFpList.stop } ∧
      ∀ fpn, fpn ∈ final.held ↔ fpn ∈ use.held ++ use.device.freeFpList.nodes := by
  obtain ⟨⟨storage, maxsz, rdmflg, cursor, ⟨nodes, stop⟩⟩, held⟩ := use
  induction nodes generalizing held with
  | nil => exact ⟨[], _, rfl, rfl, fun fpn => by rw [List.append_nil]⟩
  | cons head rest ih =>
      obtain ⟨calls, final, hrun, hlist, hheld⟩ := ih (head :: held)
      refine ⟨.get :: calls, final, hrun, hlist, fun fpn => ?_⟩
      rw [hheld]
      exact List.perm_middle.symm.mem_iff

/-- When every run conserves frames, the list it starts from is whole. -/
theorem whole_of_conserved
    (hruns : ∀ calls, ∀ target ∈ Runs.visited FrameUse.step use calls, Conserved maxSize target) :
    Whole maxSize use := by
  have hstart := hruns [] use (List.mem_singleton_self use)
  refine { terminated := ?_, partition := hstart.partition }
  obtain ⟨calls, final, hrun, hlist, hheld⟩ := exists_exhausted use
  have hfinal := hruns calls final (Runs.mem_visited_iff.mpr ⟨calls, List.prefix_rfl, hrun⟩)
  have hget : final.device.getFreefp = .ok (none, final.device) :=
    hfinal.refused.mpr fun fpn hlt =>
      (hheld fpn).mpr (hstart.partition.mem_iff.mpr (mem_framesOf.mpr hlt))
  unfold MemphyStruct.getFreefp at hget
  rw [hlist] at hget
  cases hstop : use.device.freeFpList.stop with
  | null => rfl
  | wild =>
      rw [hstop] at hget
      cases hget

/-! ## The initial list -/

/-- Numbers of frames are equal when their lists are permutations of each other. -/
theorem range_perm_framesOf_iff {count : Nat} :
    ((List.range count).map (BitVec.ofNat 64)).Perm (framesOf maxSize) ↔
      count = maxSize.toNat / pagingPagesz := by
  constructor
  · intro hperm
    have hlength := hperm.length_eq
    unfold framesOf at hlength
    simpa only [List.length_map, List.length_range] using hlength
  · rintro rfl
    exact List.Perm.refl _

/-- A negative size has no frames, like a size below one page. -/
theorem toNat_tdiv (size : Int) (pagesz : Nat) :
    (size.tdiv (pagesz : Int)).toNat = size.toNat / pagesz := by
  cases size with
  | ofNat count => rfl
  | negSucc count =>
      have hnonpos : (Int.negSucc count).tdiv (pagesz : Int) ≤ 0 := by
        change -(((count + 1) / pagesz : Nat) : Int) ≤ 0
        exact Int.neg_nonpos_of_nonneg (Int.natCast_nonneg _)
      rw [Int.toNat_of_nonpos hnonpos, Int.toNat_negSucc, Nat.zero_div]

/-- The list of a new device is the one that `MEMPHY_format` leaves. -/
theorem freeFpList_initMemphy (mp : MemphyStruct) (maxSize : Addr) (randomflg : Int)
    (garbage : ListEnd) :
    (initMemphy mp maxSize randomflg garbage).freeFpList =
      (({ mp with storage := List.replicate maxSize.toNat 0, maxsz := toCInt maxSize }
        : MemphyStruct).format pagingPagesz garbage).freeFpList := by
  unfold initMemphy
  simp only
  split <;> rfl

theorem whole_initMemphy_iff (mp : MemphyStruct) (maxSize : Addr) (randomflg : Int)
    (garbage : ListEnd) :
    Whole maxSize { device := initMemphy mp maxSize randomflg garbage, held := [] } ↔
      FormatsWhole mp maxSize garbage := by
  obtain ⟨hexact, hbound⟩ := toCInt_toNat maxSize
  have hwhole : Whole maxSize { device := initMemphy mp maxSize randomflg garbage, held := [] } ↔
      (initMemphy mp maxSize randomflg garbage).freeFpList.stop = .null ∧
        (initMemphy mp maxSize randomflg garbage).freeFpList.nodes.Perm (framesOf maxSize) :=
    ⟨fun h => ⟨h.terminated, h.partition⟩, fun h => ⟨h.1, h.2⟩⟩
  rw [hwhole, freeFpList_initMemphy]
  unfold FormatsWhole MemphyStruct.format
  simp only [toNat_tdiv]
  by_cases hsmall : toCInt maxSize < pagingPagesz
  · have hnone : (toCInt maxSize).toNat / pagingPagesz = 0 := by
      unfold pagingPagesz at hsmall ⊢
      omega
    rw [if_pos hnone, if_pos hsmall]
  · have hsome : (toCInt maxSize).toNat / pagingPagesz ≠ 0 := by
      unfold pagingPagesz at hsmall ⊢
      omega
    rw [if_neg hsome, if_neg hsmall]
    simp only [range_perm_framesOf_iff]
    constructor
    · rintro ⟨hstop, hcount⟩
      unfold pagingPagesz at hcount
      have hlt : maxSize.toNat < 2 ^ 31 := by omega
      refine ⟨hlt, fun hsingle => ?_⟩
      have hone : (toCInt maxSize).toNat / pagingPagesz = 1 := by
        rw [hexact hlt] at hsmall ⊢
        unfold pagingPagesz at hsmall hsingle ⊢
        omega
      rwa [if_pos hone] at hstop
    · rintro ⟨hlt, hgarbage⟩
      rw [hexact hlt, Int.toNat_natCast]
      refine ⟨?_, rfl⟩
      split
      next hone =>
        refine hgarbage ?_
        unfold pagingPagesz at hone ⊢
        omega
      next => rfl

/-- Every run of requests and returns conserves the frames of a device exactly when its
initialization leaves a whole list. -/
theorem conserved_iff_formatsWhole (mp : MemphyStruct) (maxSize : Addr) (randomflg : Int)
    (garbage : ListEnd) :
    (∀ calls, ∀ use ∈ Runs.visited FrameUse.step
        { device := initMemphy mp maxSize randomflg garbage, held := [] } calls,
        Conserved maxSize use) ↔
      FormatsWhole mp maxSize garbage := by
  rw [← whole_initMemphy_iff mp maxSize randomflg garbage]
  refine ⟨whole_of_conserved, fun hwhole calls use huse => Whole.conserved ?_⟩
  exact Runs.visited_invariant (Whole maxSize) (fun _ => True)
    (fun _ _ _ _ hwhole hstep => hwhole.step hstep) (fun _ _ => trivial) hwhole use huse

/-- A device of two frames or more is whole, whatever was in memory before. -/
theorem formatsWhole_of_two_frames (mp : MemphyStruct) {maxSize : Addr} (garbage : ListEnd)
    (htwo : 2 * pagingPagesz ≤ maxSize.toNat) (hint : maxSize.toNat < 2 ^ 31) :
    FormatsWhole mp maxSize garbage := by
  have hexact := (toCInt_toNat maxSize).1 hint
  unfold FormatsWhole
  rw [if_neg (by rw [hexact]; unfold pagingPagesz at htwo ⊢; omega)]
  exact ⟨hint, fun hsingle => absurd htwo (Nat.not_le.mpr hsingle)⟩

/-- The frame of a device with one frame is handed out first. The next request follows the
link of its node, which was never written. -/
theorem not_conserved_single_frame :
    ¬ ∀ calls, ∀ use ∈ Runs.visited FrameUse.step
        { device := initMemphy
            { storage := [], maxsz := 0, rdmflg := false, cursor := 0
              freeFpList := { nodes := [], stop := .null } } 256 1 .wild
          held := [] } calls,
      Conserved 256 use := by
  intro hruns
  have hwhole := whole_of_conserved hruns
  exact absurd hwhole.terminated (by decide +kernel)

end FrameUse

end SimpleOs
