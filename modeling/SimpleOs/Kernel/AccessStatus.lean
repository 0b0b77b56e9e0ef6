import SimpleOs.Kernel.Access
import SimpleOs.Kernel.Lookup
import SimpleOs.Kernel.MemoryLaw

/-! # The status of an access

`pg_getval` and `pg_setval` tell whether they had the page and whether RAM took the access.
`__read` and `__write` do not look at what they tell: an access that has passed the guards is
reported as a success, and `libread` delivers what its local variable holds. So a status is
right exactly when no access that gets that far fails.
-/

namespace SimpleOs

variable {Proc : Type}

namespace Krnl

/-- `__read` gets as far as `pg_getval`. -/
def ReachesRead (krnl : Krnl Proc) (rgid : Fin pagingMaxSymtblSz) (offset : Addr) : Prop :=
  ¬ (((krnl.mm.symrgtbl rgid).rgStart = 0 ∧ (krnl.mm.symrgtbl rgid).rgEnd = 0) ∨
    (krnl.mm.symrgtbl rgid).rgEnd ≤ (krnl.mm.symrgtbl rgid).rgStart + offset)

instance (krnl : Krnl Proc) (rgid : Fin pagingMaxSymtblSz) (offset : Addr) :
    Decidable (krnl.ReachesRead rgid offset) :=
  inferInstanceAs (Decidable (¬ _))

/-- `__write` gets as far as `pg_setval`: there is an area to find. -/
def ReachesWrite (krnl : Krnl Proc) : Prop :=
  ∃ position, krnl.mm.getVmaByNum 0 = .ok (some position)

/-- The address of an offset in the region of a register, narrowed to `int`. -/
def accessAddr (krnl : Krnl Proc) (rgid : Fin pagingMaxSymtblSz) (offset : Addr) : Word32 :=
  ((krnl.mm.symrgtbl rgid).rgStart + offset).setWidth 32

/-- What `libread` owes its caller, whose `*destination` was `old`. Success means a byte
fetched from RAM and delivered, and a failed access is reported and delivers nothing. -/
structure ReadReports (junk : Byte) (krnl : Krnl Proc) (rgid : Fin pagingMaxSymtblSz)
    (offset : Addr) (old : Word32) : Prop where
  fetched : ∀ destination after,
    libread junk krnl (BitVec.ofNat 32 rgid.val) offset = .ok (0, destination, after) →
      ∃ byte found, pgGetval krnl (krnl.accessAddr rgid offset) = .ok (some byte, found) ∧
        krnl.Fetches (krnl.accessAddr rgid offset) byte ∧ destination = byte.signExtend 32
  failed : krnl.ReachesRead rgid offset → ∀ found,
    pgGetval krnl (krnl.accessAddr rgid offset) = .ok (none, found) →
      ∃ after, libread junk krnl (BitVec.ofNat 32 rgid.val) offset = .ok (-1, old, after)

/-- What `libwrite` owes its caller. Success means a byte stored in RAM, and a failed access
is reported and leaves RAM alone. -/
structure WriteReports (krnl : Krnl Proc) (data : Byte) (rgid : Fin pagingMaxSymtblSz)
    (offset : Addr) : Prop where
  stored : ∀ after, libwrite krnl data (BitVec.ofNat 32 rgid.val) offset = .ok (0, after) →
    (∃ found, pgSetval krnl (krnl.accessAddr rgid offset) data = .ok (0, found)) ∧
      krnl.Stores after (krnl.accessAddr rgid offset) data
  failed : krnl.ReachesWrite → ∀ found,
    pgSetval krnl (krnl.accessAddr rgid offset) data = .ok (-1, found) →
      ∃ after, libwrite krnl data (BitVec.ofNat 32 rgid.val) offset = .ok (-1, after) ∧
        after.mram = krnl.mram

variable {krnl after : Krnl Proc} {rgid : Fin pagingMaxSymtblSz} {offset : Addr}

/-! ## The calls behind their guards -/

theorem mram_dumpPgtbl (hdump : dumpPgtbl krnl = .ok after) : after.mram = krnl.mram := by
  obtain ⟨mm, -, rfl⟩ := map_eq_ok.mp hdump
  rfl

theorem libread_of_reaches (junk : Byte) (hreaches : krnl.ReachesRead rgid offset) :
    libread junk krnl (BitVec.ofNat 32 rgid.val) offset =
      pgGetval krnl (krnl.accessAddr rgid offset) >>= fun (data, krnl) =>
        (dumpPgtbl krnl).map fun krnl => ((0 : Int), (data.getD junk).signExtend 32, krnl) := by
  unfold libread
  rw [LibCall.toInt_ofNat_register, readByte_of_accepted hreaches]
  change ((pgGetval krnl (krnl.accessAddr rgid offset)).map _ >>= _) = _
  cases pgGetval krnl (krnl.accessAddr rgid offset) with
  | error fault => rfl
  | ok result =>
      change (dumpPgtbl result.2 >>= _) = _
      cases hdump : dumpPgtbl result.2 with
      | error fault => simp only [ok_bind, hdump]; rfl
      | ok printed => simp only [ok_bind, hdump]; rfl

theorem libread_of_not_reaches (junk : Byte) (hreaches : ¬ krnl.ReachesRead rgid offset) :
    libread junk krnl (BitVec.ofNat 32 rgid.val) offset =
      (dumpPgtbl krnl).map fun krnl => (-1, junk.signExtend 32, krnl) := by
  unfold libread
  rw [LibCall.toInt_ofNat_register, readByte_of_refused (not_not.mp hreaches), ok_bind]
  cases hdump : dumpPgtbl krnl with
  | error fault => simp only [hdump]; rfl
  | ok printed => simp only [hdump]; rfl

theorem libwrite_of_reaches (data : Byte) (hreaches : krnl.ReachesWrite) :
    libwrite krnl data (BitVec.ofNat 32 rgid.val) offset =
      pgSetval krnl (krnl.accessAddr rgid offset) data >>= fun (_, krnl) =>
        (dumpPgtbl krnl).map fun krnl => ((0 : Int), krnl) := by
  obtain ⟨position, harea⟩ := hreaches
  unfold libwrite
  rw [LibCall.toInt_ofNat_register, writeByte_of_area harea]
  change ((pgSetval krnl (krnl.accessAddr rgid offset) data).map _ >>= _) = _
  cases pgSetval krnl (krnl.accessAddr rgid offset) data with
  | error fault => rfl
  | ok result =>
      change (if (0 : Int) = -1 then .ok (-1, result.2) else dumpPgtbl result.2 >>= _) = _
      rw [if_neg (by decide)]
      cases hdump : dumpPgtbl result.2 with
      | error fault => simp only [ok_bind, hdump]; rfl
      | ok printed => simp only [ok_bind, hdump]; rfl

/-- Without an area to find no write succeeds. -/
theorem reaches_of_libwrite {data : Byte}
    (hwrite : libwrite krnl data (BitVec.ofNat 32 rgid.val) offset = .ok (0, after)) :
    krnl.ReachesWrite := by
  unfold libwrite at hwrite
  rw [LibCall.toInt_ofNat_register] at hwrite
  obtain ⟨⟨status, written⟩, hbyte, hrest⟩ := bind_eq_ok.mp hwrite
  cases harea : krnl.mm.getVmaByNum 0 with
  | error fault =>
      unfold writeByte at hbyte
      rw [harea] at hbyte
      cases hbyte
  | ok area =>
      cases area with
      | some position => exact ⟨position, harea⟩
      | none =>
          rw [writeByte_of_no_area (getVmaByNum_eq_none_iff.mp harea)] at hbyte
          cases hbyte
          cases hrest

/-! ## Failed accesses -/

theorem accessFails_of_pgGetval {addr : Word32} (hget : pgGetval krnl addr = .ok (none, after)) :
    krnl.AccessFails addr := by
  have hcase := getvalCase krnl addr
  rw [hget] at hcase
  cases hcase with
  | failed hfails _ => exact hfails

theorem accessFails_of_pgSetval {addr : Word32} {data : Byte}
    (hset : pgSetval krnl addr data = .ok (-1, after)) : krnl.AccessFails addr := by
  have hcase := setvalCase krnl addr data
  rw [hset] at hcase
  cases hcase with
  | failed hfails _ => exact hfails

theorem exists_pgGetval_of_accessFails {addr : Word32} (hfails : krnl.AccessFails addr) :
    ∃ after, pgGetval krnl addr = .ok (none, after) := by
  have hcase := getvalCase krnl addr
  generalize pgGetval krnl addr = outcome at hcase ⊢
  cases hcase with
  | fetched hfetches _ =>
      exact absurd hfails (not_accessFails_of_random hfetches.finds hfetches.random)
  | @failed after _ _ => exact ⟨after, rfl⟩
  | faulted hnot _ => exact absurd hfails hnot

theorem exists_pgSetval_of_accessFails {addr : Word32} (data : Byte)
    (hfails : krnl.AccessFails addr) : ∃ after, pgSetval krnl addr data = .ok (-1, after) := by
  have hcase := setvalCase krnl addr data
  generalize pgSetval krnl addr data = outcome at hcase ⊢
  cases hcase with
  | stored hnot _ => exact absurd hfails hnot
  | @failed after _ _ => exact ⟨after, rfl⟩
  | faulted hnot => exact absurd hfails hnot

/-! ## Reports -/

theorem readReports_iff {junk : Byte} {old : Word32} :
    ReadReports junk krnl rgid offset old ↔
      ¬ (krnl.ReachesRead rgid offset ∧ krnl.AccessFails (krnl.accessAddr rgid offset)) := by
  constructor
  · rintro hreports ⟨hreaches, hfails⟩
    obtain ⟨found, hget⟩ := exists_pgGetval_of_accessFails hfails
    obtain ⟨after, hread⟩ := hreports.failed hreaches found hget
    rw [libread_of_reaches junk hreaches, hget, ok_bind] at hread
    obtain ⟨printed, -, htriple⟩ := map_eq_ok.mp hread
    cases htriple
  · intro hworks
    refine { fetched := fun destination after hread => ?_, failed := ?_ }
    · by_cases hreaches : krnl.ReachesRead rgid offset
      · rw [libread_of_reaches junk hreaches] at hread
        obtain ⟨⟨data, found⟩, hget, hread⟩ := bind_eq_ok.mp hread
        obtain ⟨printed, -, htriple⟩ := map_eq_ok.mp hread
        have hcase := getvalCase krnl (krnl.accessAddr rgid offset)
        rw [hget] at hcase
        cases hcase with
        | failed hfails _ => exact absurd ⟨hreaches, hfails⟩ hworks
        | @fetched byte _ hfetches _ =>
            cases htriple
            exact ⟨byte, found, hget, hfetches, rfl⟩
      · rw [libread_of_not_reaches junk hreaches] at hread
        obtain ⟨printed, -, htriple⟩ := map_eq_ok.mp hread
        cases htriple
    · intro hreaches found hget
      exact absurd ⟨hreaches, accessFails_of_pgGetval hget⟩ hworks

theorem writeReports_iff {data : Byte} :
    krnl.WriteReports data rgid offset ↔
      ¬ (krnl.ReachesWrite ∧ krnl.AccessFails (krnl.accessAddr rgid offset)) := by
  constructor
  · rintro hreports ⟨hreaches, hfails⟩
    obtain ⟨found, hset⟩ := exists_pgSetval_of_accessFails data hfails
    obtain ⟨after, hwrite, -⟩ := hreports.failed hreaches found hset
    rw [libwrite_of_reaches data hreaches, hset, ok_bind] at hwrite
    obtain ⟨printed, -, hpair⟩ := map_eq_ok.mp hwrite
    cases hpair
  · intro hworks
    refine { stored := fun after hwrite => ?_, failed := ?_ }
    · have hreaches := reaches_of_libwrite hwrite
      rw [libwrite_of_reaches data hreaches] at hwrite
      obtain ⟨⟨status, found⟩, hset, hwrite⟩ := bind_eq_ok.mp hwrite
      obtain ⟨printed, hdump, hpair⟩ := map_eq_ok.mp hwrite
      cases hpair
      have hcase := setvalCase krnl (krnl.accessAddr rgid offset) data
      rw [hset] at hcase
      cases hcase with
      | failed hfails _ => exact absurd ⟨hreaches, hfails⟩ hworks
      | stored _ hstores =>
          exact ⟨⟨found, hset⟩, hstores.inside, (mram_dumpPgtbl hdump).trans hstores.mram⟩
    · intro hreaches found hset
      exact absurd ⟨hreaches, accessFails_of_pgSetval hset⟩ hworks

/-- The statuses of `libread` and `libwrite` are right exactly when no access that passes
their guards fails. -/
theorem reports_iff (junk : Byte) (krnl : Krnl Proc) (rgid : Fin pagingMaxSymtblSz)
    (offset : Addr) (old : Word32) (data : Byte) :
    (ReadReports junk krnl rgid offset old ↔
        ¬ (krnl.ReachesRead rgid offset ∧ krnl.AccessFails (krnl.accessAddr rgid offset))) ∧
      (krnl.WriteReports data rgid offset ↔
        ¬ (krnl.ReachesWrite ∧ krnl.AccessFails (krnl.accessAddr rgid offset))) :=
  ⟨readReports_iff, writeReports_iff⟩

/-- In a region of 100 bytes a read at offset 3 returns 0 and delivers the 5 that its local
variable held, and a write returns 0 and leaves RAM alone. -/
theorem not_reports_allocated :
    ∃ krnl, liballoc (fun _ => .ok 1) 0 (singleProcess.initMm .null) 1 100 0 = .ok (0, krnl) ∧
      (libread 5 krnl 0 3).toOption.map (fun result => (result.1, result.2.1)) = some (0, 5) ∧
      (libwrite krnl 7 0 3).toOption.map (fun result => (result.1, result.2.mram.storage)) =
        some (0, krnl.mram.storage) ∧
      ¬ ReadReports 5 krnl 0 3 9 ∧ ¬ krnl.WriteReports 7 0 3 := by
  have hreads : (liballoc (fun _ => .ok 1) 0 (singleProcess.initMm .null) 1 100 0).toOption.map
      (fun allocated => (allocated.1,
        (libread 5 allocated.2 0 3).toOption.map (fun result => (result.1, result.2.1)),
        (pgGetval allocated.2 (allocated.2.accessAddr 0 3)).toOption.map Prod.fst)) =
      some (0, some (0, 5), some none) := by
    decide +kernel
  have hwrites : (liballoc (fun _ => .ok 1) 0 (singleProcess.initMm .null) 1 100 0).toOption.map
      (fun allocated => (allocated.2.mram.storage,
        (libwrite allocated.2 7 0 3).toOption.map
          (fun result => (result.1, result.2.mram.storage)),
        (pgSetval allocated.2 (allocated.2.accessAddr 0 3) 7).toOption.map Prod.fst)) =
      some (List.replicate 1024 0, some (0, List.replicate 1024 0), some (-1)) := by
    decide +kernel
  obtain ⟨⟨status, krnl⟩, halloc, hobserved⟩ := Option.map_eq_some_iff.mp hreads
  rw [halloc] at hwrites
  rw [Runs.toOption_eq_some_iff] at halloc
  simp only [Prod.mk.injEq] at hobserved
  obtain ⟨rfl, hread, hget⟩ := hobserved
  simp only [Option.map_some, Option.some.injEq, Prod.mk.injEq] at hwrites
  obtain ⟨hstorage, hwrite, hset⟩ := hwrites
  rw [← hstorage] at hwrite
  refine ⟨krnl, halloc, hread, hwrite, fun hreports => ?_, fun hreports => ?_⟩
  · obtain ⟨⟨_, destination, after⟩, hlibread, hpair⟩ := Option.map_eq_some_iff.mp hread
    obtain ⟨rfl, -⟩ := Prod.mk.inj hpair
    obtain ⟨byte, found, hfetched, -, -⟩ :=
      hreports.fetched destination after (Runs.toOption_eq_some_iff.mp hlibread)
    rw [hfetched] at hget
    cases hget
  · obtain ⟨⟨_, after⟩, hlibwrite, hpair⟩ := Option.map_eq_some_iff.mp hwrite
    obtain ⟨rfl, -⟩ := Prod.mk.inj hpair
    obtain ⟨⟨found, hstored⟩, -⟩ :=
      hreports.stored after (Runs.toOption_eq_some_iff.mp hlibwrite)
    rw [hstored] at hset
    cases hset

end Krnl

end SimpleOs
