import SimpleOs.Kernel.Access
import SimpleOs.Kernel.AllocFailure
import SimpleOs.Kernel.LibCall
import SimpleOs.Kernel.SymbolAccess

/-! # Indices into the symbol table

A 64-bit operand of an instruction reaches the entry points of the memory library as an
`int`, by way of `uint32_t`. `__alloc` accesses `symrgtbl` at it unchecked. The check of the
others lets the number just past the table through, and none of them sees the upper half of
the operand.
-/

namespace SimpleOs

open MmStruct

variable {Proc : Type}

/-! ## Operands -/

/-- The `int` that a 64-bit operand becomes. -/
def rgidOf (operand : Addr) : Int := (operand.setWidth 32 : Word32).toInt

/-- The low half of an operand as a number. -/
def lowHalf (operand : Addr) : Nat := (operand.setWidth 32 : Word32).toNat

theorem lowHalf_eq (operand : Addr) : lowHalf operand = operand.toNat % 2 ^ 32 := by
  unfold lowHalf
  rw [BitVec.toNat_setWidth]

theorem rgidOf_eq (operand : Addr) :
    rgidOf operand =
      if lowHalf operand < 2 ^ 31 then (lowHalf operand : Int) else lowHalf operand - 2 ^ 32 := by
  unfold rgidOf lowHalf
  rw [BitVec.toInt_eq_toNat_cond]
  split <;> split <;> omega

/-- An operand inside the table is not narrowed. -/
theorem exists_register_of_lt {operand : Addr} (hoperand : operand.toNat < pagingMaxSymtblSz) :
    ∃ index : Fin pagingMaxSymtblSz, rgidOf operand = index.val ∧ lowHalf operand = index.val := by
  have hlow := lowHalf_eq operand
  have hrgid := rgidOf_eq operand
  unfold pagingMaxSymtblSz at hoperand
  have hsame : lowHalf operand = operand.toNat := by omega
  refine ⟨⟨operand.toNat, hoperand⟩, ?_, hsame⟩
  rw [hrgid, hsame, if_pos (by omega)]

/-- The check refuses exactly the operands whose low half is beyond the end of the table. -/
theorem getSymrgByid_rgidOf (operand : Addr) :
    getSymrgByid (rgidOf operand) =
      if pagingMaxSymtblSz < lowHalf operand then none else some (lowHalf operand) := by
  have hlow := lowHalf_eq operand
  have hrgid := rgidOf_eq operand
  unfold getSymrgByid pagingMaxSymtblSz
  by_cases hbeyond : 30 < lowHalf operand
  · rw [if_pos hbeyond, if_pos (by split at hrgid <;> omega)]
  · rw [if_pos (by omega)] at hrgid
    rw [if_neg hbeyond, if_neg (by omega), hrgid, Int.toNat_natCast]

theorem outside_iff_getSymrgByid (rgid : Int) :
    (rgid < 0 ∨ rgid > pagingMaxSymtblSz) ↔ getSymrgByid rgid = none := by
  unfold getSymrgByid
  split
  next h => exact iff_of_true h rfl
  next h => exact iff_of_false h (Option.some_ne_none _)

/-- A low half that the check lets through is a register or the number just past the end. -/
theorem register_or_end {operand : Addr} (hlow : ¬ pagingMaxSymtblSz < lowHalf operand) :
    (∃ index : Fin pagingMaxSymtblSz, rgidOf operand = index.val ∧ lowHalf operand = index.val) ∨
      rgidOf operand = pagingMaxSymtblSz ∧ lowHalf operand = pagingMaxSymtblSz := by
  have hrgid := rgidOf_eq operand
  unfold pagingMaxSymtblSz at hlow
  rw [if_pos (by omega)] at hrgid
  by_cases hend : lowHalf operand = 30
  · right
    rw [hrgid, hend]
    exact ⟨rfl, rfl⟩
  · left
    exact ⟨⟨lowHalf operand, by unfold pagingMaxSymtblSz; omega⟩, hrgid, rfl⟩

/-! ## The entry points of an instruction -/

/-- The entry points with the operands that an instruction gives them. -/
inductive Entry where
  | alloc (size operand : Addr)
  | free (operand : Addr)
  | read (operand offset : Addr)
  | write (operand offset : Addr) (value : Byte)
  deriving DecidableEq

namespace Entry

def operand : Entry → Addr
  | alloc _ operand => operand
  | free operand => operand
  | read operand _ => operand
  | write operand _ _ => operand

variable (pidOf : Proc → Except Fault Word32) (junk : Byte) (krnl : Krnl Proc) (pid : Word32)

/-- The status of the entry point and the kernel after it. -/
def traced : Entry → Traced Int Fault (Int × Krnl Proc)
  | alloc size operand => do
      let (status, _, krnl) ← tracedAlloc pidOf junk krnl pid 0 (rgidOf operand) size
      return (status, krnl)
  | free operand => do
      let (status, mm) ← tracedFree krnl.mm (rgidOf operand)
      return (status, { krnl with mm := mm })
  | read operand offset => do
      let (status, _, krnl) ← tracedRead krnl (rgidOf operand) offset
      return (status, krnl)
  | write operand offset value => tracedWrite krnl 0 (rgidOf operand) offset value

/-- All indices are inside the table, and an operand that is not is refused and changes
nothing. -/
structure IndexSafe (entry : Entry) : Prop where
  inside : (entry.traced pidOf junk krnl pid).Confined fun index : Int =>
    0 ≤ index ∧ index < pagingMaxSymtblSz
  refused : pagingMaxSymtblSz ≤ entry.operand.toNat →
    ∃ after, (entry.traced pidOf junk krnl pid).outcome = .ok (-1, after) ∧ after.mm = krnl.mm

/-- The operand is inside the table, or the low half, which is all that the entry point sees of
it, is refused: for being beyond the number past the end, or for another reason. -/
def Guarded : Entry → Prop
  | alloc _ operand => operand.toNat < pagingMaxSymtblSz
  | free operand =>
      operand.toNat < pagingMaxSymtblSz ∨ pagingMaxSymtblSz < lowHalf operand ∨
        ∃ index : Fin pagingMaxSymtblSz, lowHalf operand = index.val ∧
          (krnl.mm.symrgtbl index).rgStart = 0 ∧ (krnl.mm.symrgtbl index).rgEnd = 0
  | read operand offset =>
      operand.toNat < pagingMaxSymtblSz ∨ pagingMaxSymtblSz < lowHalf operand ∨
        ∃ index : Fin pagingMaxSymtblSz, lowHalf operand = index.val ∧
          (((krnl.mm.symrgtbl index).rgStart = 0 ∧ (krnl.mm.symrgtbl index).rgEnd = 0) ∨
            (krnl.mm.symrgtbl index).rgStart + offset ≥ (krnl.mm.symrgtbl index).rgEnd)
  | write operand _ _ =>
      operand.toNat < pagingMaxSymtblSz ∨
        ∃ curVma, krnl.mm.getVmaByNum 0 = .ok curVma ∧
          (curVma = none ∨ pagingMaxSymtblSz < lowHalf operand)

variable {pidOf junk krnl pid}

/-- Every entry point accesses the table at the number that its operand becomes. -/
theorem confined_traced (entry : Entry) :
    (entry.traced pidOf junk krnl pid).Confined fun index => index = rgidOf entry.operand := by
  cases entry with
  | alloc size operand =>
      exact (confined_tracedAlloc pidOf junk krnl pid 0 _ size).bind
        fun _ _ => Traced.confined_pure _
  | free operand => exact (confined_tracedFree krnl.mm _).bind fun _ _ => Traced.confined_pure _
  | read operand offset =>
      exact (confined_tracedRead krnl _ offset).bind fun _ _ => Traced.confined_pure _
  | write operand offset value => exact confined_tracedWrite krnl 0 _ offset value

theorem inside_of_register {entry : Entry} {index : Fin pagingMaxSymtblSz}
    (hrgid : rgidOf entry.operand = index.val) :
    (entry.traced pidOf junk krnl pid).Confined fun index : Int =>
      0 ≤ index ∧ index < pagingMaxSymtblSz := by
  refine (confined_traced entry).mono fun access haccess => ?_
  rw [haccess, hrgid]
  exact ⟨Int.natCast_nonneg _, Int.ofNat_lt.mpr index.isLt⟩

/-- An operand inside the table is safe in every state. -/
theorem indexSafe_of_lt {entry : Entry} (hoperand : entry.operand.toNat < pagingMaxSymtblSz) :
    entry.IndexSafe pidOf junk krnl pid where
  inside := by
    obtain ⟨index, hrgid, -⟩ := exists_register_of_lt hoperand
    exact inside_of_register hrgid
  refused hlarge := absurd hoperand (Nat.not_lt.mpr hlarge)

/-- A refusal before any access is safe. -/
theorem indexSafe_of_refused {entry : Entry}
    (hrefused : entry.traced pidOf junk krnl pid = pure (-1, krnl)) :
    entry.IndexSafe pidOf junk krnl pid where
  inside := by
    rw [hrefused]
    exact Traced.confined_pure _
  refused _ := ⟨krnl, by rw [hrefused]; rfl, rfl⟩

/-- An access just past the end of the table is not. -/
theorem not_indexSafe_of_end {entry : Entry}
    (hend : (pagingMaxSymtblSz : Int) ∈ (entry.traced pidOf junk krnl pid).accesses) :
    ¬ entry.IndexSafe pidOf junk krnl pid :=
  fun hsafe => Int.lt_irrefl _ (hsafe.inside _ hend).2

/-- `__alloc` refuses nothing. -/
theorem indexSafe_alloc_iff {size operand : Addr} :
    (alloc size operand).IndexSafe pidOf junk krnl pid ↔ operand.toNat < pagingMaxSymtblSz := by
  refine ⟨fun hsafe => ?_, fun hoperand => indexSafe_of_lt hoperand⟩
  by_contra hlarge
  obtain ⟨after, houtcome, -⟩ := hsafe.refused (Nat.not_lt.mp hlarge)
  unfold traced at houtcome
  rw [Traced.outcome_bind, outcome_tracedAlloc] at houtcome
  obtain ⟨⟨status, addr, next⟩, halloc, hresult⟩ := bind_eq_ok.mp houtcome
  cases hresult
  cases alloc_status halloc

/-- An entry point that checks the number first, accesses it at once, and refuses a register
for some reason. -/
theorem indexSafe_iff_of_check {entry : Entry} {operand : Addr}
    {reason : Fin pagingMaxSymtblSz → Prop} (hentry : entry.operand = operand)
    (hcheck : getSymrgByid (rgidOf operand) = none →
      entry.traced pidOf junk krnl pid = pure (-1, krnl))
    (haccess : getSymrgByid (rgidOf operand) ≠ none →
      rgidOf operand ∈ (entry.traced pidOf junk krnl pid).accesses)
    (hrefuses : ∀ index : Fin pagingMaxSymtblSz, rgidOf operand = index.val →
      ∀ after, (entry.traced pidOf junk krnl pid).outcome = .ok (-1, after) → reason index)
    (hreason : ∀ index : Fin pagingMaxSymtblSz, rgidOf operand = index.val →
      reason index → (entry.traced pidOf junk krnl pid).outcome = .ok (-1, krnl)) :
    entry.IndexSafe pidOf junk krnl pid ↔
      operand.toNat < pagingMaxSymtblSz ∨ pagingMaxSymtblSz < lowHalf operand ∨
        ∃ index : Fin pagingMaxSymtblSz, lowHalf operand = index.val ∧ reason index := by
  subst hentry
  by_cases hoperand : entry.operand.toNat < pagingMaxSymtblSz
  · exact iff_of_true (indexSafe_of_lt hoperand) (Or.inl hoperand)
  by_cases hbeyond : pagingMaxSymtblSz < lowHalf entry.operand
  · have hnone := (getSymrgByid_rgidOf entry.operand).trans (if_pos hbeyond)
    exact iff_of_true (indexSafe_of_refused (hcheck hnone)) (Or.inr (Or.inl hbeyond))
  have hsome : getSymrgByid (rgidOf entry.operand) ≠ none := by
    rw [getSymrgByid_rgidOf, if_neg hbeyond]
    exact Option.some_ne_none _
  rcases register_or_end hbeyond with ⟨index, hrgid, hlow⟩ | ⟨hrgid, hlow⟩
  · constructor
    · intro hsafe
      obtain ⟨after, hafter, -⟩ := hsafe.refused (Nat.not_lt.mp hoperand)
      exact Or.inr (Or.inr ⟨index, hlow, hrefuses index hrgid after hafter⟩)
    · rintro (hsmall | hlarge | ⟨other, hother, hwhy⟩)
      · exact absurd hsmall hoperand
      · exact absurd hlarge hbeyond
      · obtain rfl : other = index := Fin.ext (hother.symm.trans hlow)
        exact { inside := inside_of_register hrgid
                refused := fun _ => ⟨krnl, hreason other hrgid hwhy, rfl⟩ }
  · have hend := haccess hsome
    rw [hrgid] at hend
    refine iff_of_false (not_indexSafe_of_end hend) ?_
    rintro (hsmall | hlarge | ⟨index, hindex, -⟩)
    · exact absurd hsmall hoperand
    · exact absurd hlarge hbeyond
    · exact absurd (hindex.symm.trans hlow) (Nat.ne_of_lt index.isLt)

theorem check_of_fin (index : Fin pagingMaxSymtblSz) :
    ¬ ((index.val : Int) < 0 ∨ (index.val : Int) > pagingMaxSymtblSz) := by
  rw [outside_iff_getSymrgByid, Krnl.getSymrgByid_of_fin]
  exact Option.some_ne_none _

/-- `__free` ends with `-1` or 0. -/
theorem free_status {mm next : MmStruct} {rgid status : Int}
    (hfree : SimpleOs.free mm rgid = .ok (status, next)) : status = -1 ∨ status = 0 := by
  cases free_ends hfree with
  | refused => exact Or.inl rfl
  | freed hread hclear hlist => exact Or.inr rfl

theorem outcome_free (operand : Addr) :
    ((free operand).traced pidOf junk krnl pid).outcome =
      (SimpleOs.free krnl.mm (rgidOf operand)).map fun (status, mm) =>
        (status, { krnl with mm := mm }) := by
  unfold traced
  rw [Traced.outcome_bind, outcome_tracedFree]
  cases SimpleOs.free krnl.mm (rgidOf operand) with
  | error fault => rfl
  | ok result => rfl

theorem indexSafe_free_iff {operand : Addr} :
    (free operand).IndexSafe pidOf junk krnl pid ↔ (free operand).Guarded krnl := by
  apply indexSafe_iff_of_check (show (free operand).operand = operand from rfl)
  · intro hnone
    simp only [traced, tracedFree, if_pos ((outside_iff_getSymrgByid _).mpr hnone)]
    rfl
  · intro hsome
    have hinside := (outside_iff_getSymrgByid (rgidOf operand)).not.mpr hsome
    simp only [traced, tracedFree, if_neg hinside]
    exact Traced.mem_accesses_bind.mpr (Or.inl
      (Traced.mem_accesses_bind.mpr (Or.inl List.mem_cons_self)))
  · intro index hrgid after hafter
    rw [outcome_free, hrgid] at hafter
    unfold SimpleOs.free at hafter
    rw [if_neg (check_of_fin index), symrg_of_fin, ok_bind] at hafter
    split at hafter
    next hempty => exact hempty
    next =>
      obtain ⟨⟨status, mm⟩, hfree, hpair⟩ := map_eq_ok.mp hafter
      obtain ⟨_, _, hfree⟩ := bind_eq_ok.mp hfree
      obtain ⟨_, _, hfree⟩ := bind_eq_ok.mp hfree
      cases hfree
      cases hpair
  · intro index hrgid hempty
    rw [outcome_free, hrgid]
    unfold SimpleOs.free
    rw [if_neg (check_of_fin index), symrg_of_fin, ok_bind, if_pos hempty]
    rfl

theorem outcome_read (operand offset : Addr) :
    ((read operand offset).traced pidOf junk krnl pid).outcome =
      (readByte krnl (rgidOf operand) offset).map fun (status, _, krnl) => (status, krnl) := by
  unfold traced
  rw [Traced.outcome_bind, outcome_tracedRead]
  cases readByte krnl (rgidOf operand) offset with
  | error fault => rfl
  | ok result => rfl

theorem indexSafe_read_iff {operand offset : Addr} :
    (read operand offset).IndexSafe pidOf junk krnl pid ↔
      (read operand offset).Guarded krnl := by
  apply indexSafe_iff_of_check (show (read operand offset).operand = operand from rfl)
  · intro hnone
    simp only [traced, tracedRead, hnone]
    rfl
  · intro hsome
    obtain ⟨pointer, hpointer⟩ := Option.ne_none_iff_exists'.mp hsome
    simp only [traced, tracedRead, hpointer]
    exact Traced.mem_accesses_bind.mpr (Or.inl
      (Traced.mem_accesses_bind.mpr (Or.inl List.mem_cons_self)))
  · intro index hrgid after hafter
    rw [outcome_read, hrgid] at hafter
    by_contra hguard
    rw [Krnl.readByte_of_accepted hguard] at hafter
    obtain ⟨result, hread, hpair⟩ := map_eq_ok.mp hafter
    obtain ⟨found, -, rfl⟩ := map_eq_ok.mp hread
    cases hpair
  · intro index hrgid hwhy
    rw [outcome_read, hrgid, Krnl.readByte_of_refused hwhy]
    rfl

theorem indexSafe_write_iff {operand offset : Addr} {value : Byte} :
    (write operand offset value).IndexSafe pidOf junk krnl pid ↔
      (write operand offset value).Guarded krnl := by
  by_cases hoperand : operand.toNat < pagingMaxSymtblSz
  · exact iff_of_true (indexSafe_of_lt hoperand) (Or.inl hoperand)
  have hcheck := getSymrgByid_rgidOf operand
  constructor
  · intro hsafe
    obtain ⟨after, hafter, -⟩ := hsafe.refused (Nat.not_lt.mp hoperand)
    change (tracedWrite krnl 0 (rgidOf operand) offset value).outcome = _ at hafter
    rw [outcome_tracedWrite] at hafter
    unfold writeByte at hafter
    obtain ⟨curVma, hcurVma, hafter⟩ := bind_eq_ok.mp hafter
    refine Or.inr ⟨curVma, hcurVma, ?_⟩
    by_cases hbeyond : pagingMaxSymtblSz < lowHalf operand
    · exact Or.inr hbeyond
    rw [hcheck, if_neg hbeyond] at hafter
    cases curVma with
    | none => exact Or.inl rfl
    | some position =>
        obtain ⟨_, _, hafter⟩ := bind_eq_ok.mp hafter
        obtain ⟨_, _, hafter⟩ := bind_eq_ok.mp hafter
        cases hafter
  · rintro (hsmall | ⟨curVma, hcurVma, hreason⟩)
    · exact absurd hsmall hoperand
    · apply indexSafe_of_refused
      simp only [traced, tracedWrite, hcurVma]
      rcases hreason with rfl | hbeyond
      · cases getSymrgByid (rgidOf operand) with
        | none => rfl
        | some pointer => rfl
      · rw [hcheck, if_pos hbeyond]
        rfl

/-- The library call that an instruction makes with the operand. -/
def libCall : Entry → LibCall
  | alloc size operand => .alloc size (operand.setWidth 32)
  | free operand => .free (operand.setWidth 32)
  | read operand offset => .read (operand.setWidth 32) offset
  | write operand offset value => .write value (operand.setWidth 32) offset

/-- An instruction ends with the status of its entry point. -/
theorem status_of_libCall {entry : Entry} {status : Int} {after : Krnl Proc}
    (hcall : entry.libCall.call pidOf junk krnl pid = .ok (status, after)) :
    ∃ next, (entry.traced pidOf junk krnl pid).outcome = .ok (status, next) := by
  cases entry with
  | alloc size operand =>
      change liballoc pidOf junk krnl pid size (operand.setWidth 32) = _ at hcall
      obtain ⟨⟨val, addr, next⟩, halloc, hcall⟩ := bind_eq_ok.mp hcall
      refine ⟨next, ?_⟩
      unfold traced
      rw [Traced.outcome_bind, outcome_tracedAlloc]
      refine bind_eq_ok.mpr ⟨(val, addr, next), halloc, ?_⟩
      cases alloc_status halloc
      obtain ⟨dumped, -, hcall⟩ := bind_eq_ok.mp hcall
      cases hcall
      rfl
  | free operand =>
      change libfree krnl (operand.setWidth 32) = _ at hcall
      obtain ⟨⟨val, mm⟩, hfree, hcall⟩ := bind_eq_ok.mp hcall
      refine ⟨{ krnl with mm := mm }, ?_⟩
      rw [outcome_free]
      refine map_eq_ok.mpr ⟨(val, mm), hfree, ?_⟩
      simp only at hcall
      split at hcall
      next hval =>
        cases hcall
        rw [hval]
      next hval =>
        obtain ⟨dumped, -, hcall⟩ := bind_eq_ok.mp hcall
        cases hcall
        rw [(free_status hfree).resolve_left hval]
  | read operand offset =>
      obtain ⟨⟨val, value, next⟩, hlibread, hcall⟩ := bind_eq_ok.mp hcall
      cases hcall
      obtain ⟨⟨val, data, next⟩, hread, hdump⟩ := bind_eq_ok.mp hlibread
      obtain ⟨dumped, -, hdump⟩ := bind_eq_ok.mp hdump
      cases hdump
      refine ⟨next, ?_⟩
      rw [outcome_read]
      exact map_eq_ok.mpr ⟨_, hread, rfl⟩
  | write operand offset value =>
      change libwrite krnl value (operand.setWidth 32) offset = _ at hcall
      obtain ⟨⟨val, next⟩, hwrite, hcall⟩ := bind_eq_ok.mp hcall
      refine ⟨next, ?_⟩
      change (tracedWrite krnl 0 (rgidOf operand) offset value).outcome = _
      rw [outcome_tracedWrite]
      simp only at hcall
      split at hcall
      next hval =>
        cases hcall
        rw [← hval]
        exact hwrite
      next hval =>
        obtain ⟨dumped, -, hcall⟩ := bind_eq_ok.mp hcall
        cases hcall
        exact hwrite

/-- In any state, the accesses of an entry point are inside the table and an operand outside
it is refused without a change exactly when the operand is inside or its low half is
refused. -/
theorem indexSafe_iff_guarded (pidOf : Proc → Except Fault Word32) (junk : Byte)
    (krnl : Krnl Proc) (pid : Word32) (entry : Entry) :
    entry.IndexSafe pidOf junk krnl pid ↔ entry.Guarded krnl := by
  cases entry with
  | alloc size operand => exact indexSafe_alloc_iff
  | free operand => exact indexSafe_free_iff
  | read operand offset => exact indexSafe_read_iff
  | write operand offset value => exact indexSafe_write_iff

/-- In a new process, `FREE 30` reads the entry past the end of the table, and an allocation
under the operand `2 ^ 32` goes to register 0. -/
theorem not_indexSafe_singleProcess :
    ¬ (free 30).IndexSafe (fun _ => .ok 1) 0 (singleProcess.initMm .null) 1 ∧
      ¬ (alloc 100 0x100000000).IndexSafe (fun _ => .ok 1) 0 (singleProcess.initMm .null) 1 := by
  constructor
  · apply not_indexSafe_of_end
    decide
  · rw [indexSafe_alloc_iff]
    decide

end Entry

end SimpleOs
