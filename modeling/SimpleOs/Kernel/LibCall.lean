import SimpleOs.Foundation.Runs
import SimpleOs.Kernel.Unmapped

/-! # Library calls as region operations

The calls that instructions make into the memory library. On a descriptor that maps no
page each call refines an operation on regions, and two facts follow for whole runs: which
regions a process has depends on its calls alone, and no access ever reaches a device.
-/

namespace SimpleOs

open MmStruct

variable {Proc : Type}

/-- A call of the memory library, with the arguments that `run` passes on. -/
inductive LibCall where
  | alloc (size : Addr) (regIndex : Word32)
  | free (regIndex : Word32)
  | read (source : Word32) (offset : Addr)
  | write (data : Byte) (destination : Word32) (offset : Addr)
  deriving DecidableEq

namespace LibCall

/-- The library function of a call: its status, and the kernel after it. -/
def call (pidOf : Proc → Except Fault Word32) (junk : Byte) (krnl : Krnl Proc) (pid : Word32) :
    LibCall → Except Fault (Int × Krnl Proc)
  | alloc size regIndex => liballoc pidOf junk krnl pid size regIndex
  | free regIndex => libfree krnl regIndex
  | read source offset => do
      let (status, _, krnl) ← libread junk krnl source offset
      return (status, krnl)
  | write data destination offset => libwrite krnl data destination offset

/-- What a call does to the regions, with no result where the call cannot complete. -/
def effect (regions : Regions) : LibCall → Option Regions
  | alloc size regIndex =>
      (register regIndex.toInt).bind fun index => (regions.alloc 0 index size).toOption
  | free regIndex =>
      if regIndex.toInt = pagingMaxSymtblSz then none
      else
        match register regIndex.toInt with
        | none => some regions
        | some index => some (regions.release index)
  | read source _ => if source.toInt = pagingMaxSymtblSz then none else some regions
  | write _ destination _ =>
      if destination.toInt = pagingMaxSymtblSz then none else some regions

end LibCall

variable {pidOf : Proc → Except Fault Word32} {junk : Byte} {krnl next : Krnl Proc}
  {pid : Word32}

/-! ## Accesses -/

/-- No page is found, and nothing is brought in. -/
theorem pgGetpage_of_unmapped (hmm : krnl.mm.Unmapped) (pgn : Addr) :
    pgGetpage krnl pgn = .ok (none, krnl) := by
  -- the entry reads 0, and without a listed page there is no victim to swap out
  have habsent : ¬ pagingPagePresent (0 : Word32) := by decide
  unfold pgGetpage findVictimPage
  simp only [pteGetEntry_of_pt hmm.pt_none, if_neg habsent, hmm.fifo_nil, ok_bind, pure_eq_ok]

theorem pgGetval_of_unmapped (hmm : krnl.mm.Unmapped) (addr : Word32) :
    pgGetval krnl addr = .ok (none, krnl) := by
  unfold pgGetval
  rw [pgGetpage_of_unmapped hmm, ok_bind]
  rfl

theorem pgSetval_of_unmapped (hmm : krnl.mm.Unmapped) (addr : Word32) (value : Byte) :
    pgSetval krnl addr value = .ok (-1, krnl) := by
  unfold pgSetval
  rw [pgGetpage_of_unmapped hmm, ok_bind]
  rfl

theorem getSymrgByid_eq_some {rgid : Int} {pointer : Nat}
    (hpointer : getSymrgByid rgid = some pointer) (hend : rgid ≠ pagingMaxSymtblSz) :
    ∃ index, register rgid = some index := by
  unfold getSymrgByid at hpointer
  split at hpointer
  next => cases hpointer
  next hinside =>
    cases hregister : register rgid with
    | none => exact absurd (outside_of_register hregister hend) hinside
    | some index => exact ⟨index, rfl⟩

/-- `__read` assigns no byte: it is refused, or reads past the table, or finds no page. -/
theorem readByte_of_unmapped (hmm : krnl.mm.Unmapped) (rgid : Int) (offset : Addr) :
    (rgid = pagingMaxSymtblSz ∧ readByte krnl rgid offset = .error .outOfBounds) ∨
      rgid ≠ pagingMaxSymtblSz ∧
        ∃ status, readByte krnl rgid offset = .ok (status, none, krnl) := by
  by_cases hend : rgid = pagingMaxSymtblSz
  · refine Or.inl ⟨hend, ?_⟩
    rw [hend]
    rfl
  · refine Or.inr ⟨hend, ?_⟩
    unfold readByte
    cases hpointer : getSymrgByid rgid with
    | none => exact ⟨-1, rfl⟩
    | some pointer =>
        obtain ⟨index, hindex⟩ := getSymrgByid_eq_some hpointer hend
        rw [register_eq_some hindex]
        -- the status of `pg_getval` is not looked at
        simp only [symrg_of_fin, ok_bind, pgGetval_of_unmapped hmm]
        split
        · exact ⟨-1, rfl⟩
        · split
          · exact ⟨-1, rfl⟩
          · exact ⟨0, rfl⟩

/-- `__write` changes nothing, in the same cases. -/
theorem writeByte_of_unmapped (hmm : krnl.mm.Unmapped) (rgid : Int) (offset : Addr)
    (value : Byte) :
    (rgid = pagingMaxSymtblSz ∧ writeByte krnl 0 rgid offset value = .error .outOfBounds) ∨
      rgid ≠ pagingMaxSymtblSz ∧
        ∃ status, writeByte krnl 0 rgid offset value = .ok (status, krnl) := by
  obtain ⟨vma, hmmap, hid, -⟩ := hmm.area
  unfold writeByte
  rw [getVmaByNum_of_single hmmap hid, ok_bind]
  by_cases hend : rgid = pagingMaxSymtblSz
  · refine Or.inl ⟨hend, ?_⟩
    rw [hend]
    rfl
  · refine Or.inr ⟨hend, ?_⟩
    cases hpointer : getSymrgByid rgid with
    | none => exact ⟨-1, rfl⟩
    | some pointer =>
        obtain ⟨index, hindex⟩ := getSymrgByid_eq_some hpointer hend
        rw [register_eq_some hindex]
        simp only [symrg_of_fin, ok_bind, pgSetval_of_unmapped hmm]
        exact ⟨0, rfl⟩

theorem dumpPgtbl_of_unmapped (hmm : krnl.mm.Unmapped) :
    ∃ next, dumpPgtbl krnl = .ok next ∧ next.mm.Unmapped ∧
      next.mm.regions = krnl.mm.regions := by
  obtain ⟨mm, hprint, hform, hregions⟩ := hmm.printPgtbl
  unfold dumpPgtbl
  rw [hprint]
  exact ⟨_, rfl, hform, hregions⟩

/-! ## Calls -/

/-- `libread` delivers whatever its local variable held before. -/
theorem libread_of_unmapped (hmm : krnl.mm.Unmapped) {source : Word32}
    (hend : source.toInt ≠ pagingMaxSymtblSz) (junk : Byte) (offset : Addr) :
    ∃ status after, libread junk krnl source offset = .ok (status, junk.signExtend 32, after) ∧
      after.mm.Unmapped ∧ after.mm.regions = krnl.mm.regions := by
  rcases readByte_of_unmapped hmm source.toInt offset with ⟨heq, -⟩ | ⟨-, status, hread⟩
  · exact absurd heq hend
  · obtain ⟨after, hdump, hform, hregions⟩ := dumpPgtbl_of_unmapped hmm
    refine ⟨status, after, ?_, hform, hregions⟩
    unfold libread
    rw [hread]
    simp only [ok_bind, hdump]
    rfl

/-- `libread` and `libwrite` past the end of the table, where they cannot complete. -/
theorem libread_past_end {source : Word32} (hend : source.toInt = pagingMaxSymtblSz)
    (junk : Byte) (krnl : Krnl Proc) (offset : Addr) :
    libread junk krnl source offset = .error .outOfBounds := by
  unfold libread
  rw [hend]
  rfl

theorem libwrite_past_end (hmm : krnl.mm.Unmapped) {destination : Word32}
    (hend : destination.toInt = pagingMaxSymtblSz) (data : Byte) (offset : Addr) :
    libwrite krnl data destination offset = .error .outOfBounds := by
  rcases writeByte_of_unmapped hmm destination.toInt offset data with ⟨-, hwrite⟩ | ⟨hne, -⟩
  · unfold libwrite
    rw [hwrite]
    rfl
  · exact absurd hend hne

theorem libwrite_of_unmapped (hmm : krnl.mm.Unmapped) {destination : Word32}
    (hend : destination.toInt ≠ pagingMaxSymtblSz) (data : Byte) (offset : Addr) :
    ∃ status after, libwrite krnl data destination offset = .ok (status, after) ∧
      after.mm.Unmapped ∧ after.mm.regions = krnl.mm.regions := by
  rcases writeByte_of_unmapped hmm destination.toInt offset data with ⟨heq, -⟩ | ⟨-, status, hwrite⟩
  · exact absurd heq hend
  · obtain ⟨after, hdump, hform, hregions⟩ := dumpPgtbl_of_unmapped hmm
    unfold libwrite
    rw [hwrite, ok_bind]
    by_cases hstatus : status = -1
    · simp only [if_pos hstatus]
      exact ⟨-1, krnl, rfl, hmm, rfl⟩
    · simp only [if_neg hstatus, hdump, ok_bind]
      exact ⟨status, after, rfl, hform, hregions⟩

/-- `liballoc` succeeds whenever it completes. -/
theorem liballoc_spec {size : Addr} {regIndex : Word32} {status : Int} (hmm : krnl.mm.Unmapped)
    (halloc : liballoc pidOf junk krnl pid size regIndex = .ok (status, next)) :
    ∃ index, register regIndex.toInt = some index ∧ status = 0 ∧ next.mm.Unmapped ∧
      krnl.mm.regions.alloc 0 index size = .ok next.mm.regions := by
  unfold liballoc at halloc
  obtain ⟨⟨val, addr, middle⟩, hinner, hrest⟩ := bind_eq_ok.mp halloc
  obtain ⟨index, hindex, rfl, hmiddle, hregions⟩ := alloc_spec hmm hinner
  obtain ⟨after, hdump, hform, hsame⟩ := dumpPgtbl_of_unmapped hmiddle
  simp only [show ¬ (0 : Int) = -1 by decide, if_false, hdump, ok_bind] at hrest
  cases hrest
  exact ⟨index, hindex ▸ register_of_fin index, rfl, hform, hsame ▸ hregions⟩

theorem exists_liballoc {index : Fin pagingMaxSymtblSz} {size : Addr} {regIndex : Word32}
    {regions : Regions} (hpid : ∀ proc, ∃ procPid, pidOf proc = .ok procPid)
    (hmm : krnl.mm.Unmapped) (hindex : register regIndex.toInt = some index)
    (hregions : krnl.mm.regions.alloc 0 index size = .ok regions) (junk : Byte) (pid : Word32) :
    ∃ result, liballoc pidOf junk krnl pid size regIndex = .ok result := by
  obtain ⟨⟨val, addr, middle⟩, hinner⟩ := exists_alloc hpid hmm hregions junk pid
  obtain ⟨-, -, rfl, hmiddle, -⟩ := alloc_spec hmm hinner
  obtain ⟨after, hdump, -, -⟩ := dumpPgtbl_of_unmapped hmiddle
  unfold liballoc
  rw [register_eq_some hindex, hinner]
  simp only [ok_bind, show ¬ (0 : Int) = -1 by decide, if_false, hdump]
  exact ⟨_, rfl⟩

theorem libfree_past_end {regIndex : Word32} (hend : regIndex.toInt = pagingMaxSymtblSz)
    (krnl : Krnl Proc) : libfree krnl regIndex = .error .outOfBounds := by
  unfold libfree free
  rw [hend]
  rfl

/-- `libfree` releases the region of a register of the table and refuses other numbers. -/
theorem libfree_of_unmapped (hmm : krnl.mm.Unmapped) {regIndex : Word32}
    (hend : regIndex.toInt ≠ pagingMaxSymtblSz) :
    ∃ status after, libfree krnl regIndex = .ok (status, after) ∧ after.mm.Unmapped ∧
      after.mm.regions = match register regIndex.toInt with
        | none => krnl.mm.regions
        | some index => krnl.mm.regions.release index := by
  unfold libfree
  cases hindex : register regIndex.toInt with
  | none =>
      unfold SimpleOs.free
      rw [if_pos (outside_of_register hindex hend)]
      exact ⟨-1, krnl, rfl, hmm, rfl⟩
  | some index =>
      obtain ⟨status, released, hfree, hform, hregions⟩ := free_spec hmm index
      obtain ⟨after, hdump, hafter, hsame⟩ :=
        dumpPgtbl_of_unmapped
          (show ({ krnl with mm := released } : Krnl Proc).mm.Unmapped from hform)
      rw [register_eq_some hindex, hfree, ok_bind]
      by_cases hstatus : status = -1
      · simp only [if_pos hstatus]
        exact ⟨-1, _, rfl, hform, hregions⟩
      · simp only [if_neg hstatus, hdump, ok_bind]
        exact ⟨0, after, rfl, hafter, hsame.trans hregions⟩

namespace LibCall

variable {operation : LibCall}

/-- A call that completes has the effect of its operation on the regions. -/
theorem call_spec {status : Int} (hmm : krnl.mm.Unmapped)
    (hcall : operation.call pidOf junk krnl pid = .ok (status, next)) :
    next.mm.Unmapped ∧ operation.effect krnl.mm.regions = some next.mm.regions := by
  cases operation with
  | alloc size regIndex =>
      obtain ⟨index, hindex, -, hform, hregions⟩ := liballoc_spec hmm hcall
      refine ⟨hform, ?_⟩
      simp only [effect, hindex, Option.bind_some, hregions]
      rfl
  | free regIndex =>
      have hfree : libfree krnl regIndex = .ok (status, next) := hcall
      by_cases hend : regIndex.toInt = pagingMaxSymtblSz
      · rw [libfree_past_end hend] at hfree
        cases hfree
      · obtain ⟨found, after, hafter, hform, hregions⟩ := libfree_of_unmapped hmm hend
        cases hafter.symm.trans hfree
        refine ⟨hform, ?_⟩
        simp only [effect, if_neg hend, hregions]
        cases register regIndex.toInt <;> rfl
  | read source offset =>
      obtain ⟨⟨val, destination, after⟩, hread, hdone⟩ := bind_eq_ok.mp hcall
      cases hdone
      by_cases hend : source.toInt = pagingMaxSymtblSz
      · rw [libread_past_end hend] at hread
        cases hread
      · obtain ⟨found, after, hafter, hform, hregions⟩ :=
          libread_of_unmapped hmm hend junk offset
        cases hafter.symm.trans hread
        refine ⟨hform, ?_⟩
        simp only [effect, if_neg hend, hregions]
  | write data destination offset =>
      have hwrite : libwrite krnl data destination offset = .ok (status, next) := hcall
      by_cases hend : destination.toInt = pagingMaxSymtblSz
      · rw [libwrite_past_end hmm hend] at hwrite
        cases hwrite
      · obtain ⟨found, after, hafter, hform, hregions⟩ :=
          libwrite_of_unmapped hmm hend data offset
        cases hafter.symm.trans hwrite
        refine ⟨hform, ?_⟩
        simp only [effect, if_neg hend, hregions]

/-- Where every pid can be read, a call completes when its operation has an effect. -/
theorem exists_call {regions : Regions} (hpid : ∀ proc, ∃ procPid, pidOf proc = .ok procPid)
    (hmm : krnl.mm.Unmapped) (heffect : operation.effect krnl.mm.regions = some regions)
    (junk : Byte) (pid : Word32) :
    ∃ result, operation.call pidOf junk krnl pid = .ok result := by
  cases operation with
  | alloc size regIndex =>
      obtain ⟨index, hindex, halloc⟩ := Option.bind_eq_some_iff.mp heffect
      exact exists_liballoc hpid hmm hindex (Runs.toOption_eq_some_iff.mp halloc) junk pid
  | free regIndex =>
      simp only [effect] at heffect
      split at heffect
      next => cases heffect
      next hend =>
        obtain ⟨status, after, hafter, -, -⟩ := libfree_of_unmapped hmm hend
        exact ⟨_, hafter⟩
  | read source offset =>
      simp only [effect] at heffect
      split at heffect
      next => cases heffect
      next hend =>
        obtain ⟨status, after, hafter, -, -⟩ := libread_of_unmapped hmm hend junk offset
        simp only [call, hafter, ok_bind]
        exact ⟨_, rfl⟩
  | write data destination offset =>
      simp only [effect] at heffect
      split at heffect
      next => cases heffect
      next hend =>
        obtain ⟨status, after, hafter, -, -⟩ := libwrite_of_unmapped hmm hend data offset
        exact ⟨_, hafter⟩

end LibCall

end SimpleOs
