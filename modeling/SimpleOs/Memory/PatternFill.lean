import SimpleOs.Memory.Vm

/-! # Filling entries with a pattern

`vmap_pgd_memset` walks to each page of its range and then stores the pattern through `pt`,
a pointer beside the walk that `init_mm` leaves `NULL` and no function sets. So the entries
are filled exactly when there are none.
-/

namespace SimpleOs

namespace MmStruct

/-- The page is one of the `pgnum` pages from the address on. -/
def InRange (addr : Addr) (pgnum : Int) (page : Addr) : Prop :=
  ((addr / paging64Pagesz).toNat : Int) ≤ page.toNat ∧
    (page.toNat : Int) < (addr / paging64Pagesz).toNat + pgnum

/-- The fill completes, the entries of the range have the pattern and the others are as they
were. -/
def FillsPattern (mm : MmStruct) (addr : Addr) (pgnum : Int) : Prop :=
  ∃ next, mm.vmapPgdMemset addr pgnum = .ok next ∧
    ∀ page : Addr, page.toNat < 2 ^ 45 →
      (InRange addr pgnum page → next.leaf page = 0xdeadbeef) ∧
        (¬ InRange addr pgnum page → next.leaf page = mm.leaf page)

variable {mm : MmStruct}

/-- Without the table that `pt` should point to, the store dereferences `NULL`. -/
theorem memsetPage_of_pt (hpt : mm.pt = none) (pgn : Addr) :
    mm.memsetPage pgn = .error .nullDeref := by
  unfold memsetPage
  cases hwalk : mm.updatePte pgn id with
  | error fault =>
      unfold updatePte at hwalk
      split at hwalk
      next => exact hwalk.symm
      next => cases hwalk
  | ok walked =>
      obtain ⟨pgd, -, rfl⟩ := updatePte_eq_ok hwalk
      rw [ok_bind, hpt]

theorem vmapPgdMemset_of_pt (hpt : mm.pt = none) (addr : Addr) {pgnum : Int}
    (hpgnum : 0 < pgnum) : mm.vmapPgdMemset addr pgnum = .error .nullDeref := by
  obtain ⟨count, hcount⟩ : ∃ count, pgnum.toNat = count + 1 := ⟨pgnum.toNat - 1, by omega⟩
  unfold vmapPgdMemset
  rw [hcount, List.range_succ_eq_map, List.foldlM_cons, memsetPage_of_pt hpt, error_bind]

theorem vmapPgdMemset_of_nonpos (mm : MmStruct) (addr : Addr) {pgnum : Int}
    (hpgnum : pgnum ≤ 0) : mm.vmapPgdMemset addr pgnum = .ok mm := by
  unfold vmapPgdMemset
  rw [Int.toNat_of_nonpos hpgnum]
  rfl

/-- While `pt` is `NULL`, a range is filled exactly when it has no page. -/
theorem fillsPattern_iff_of_pt (hpt : mm.pt = none) (addr : Addr) (pgnum : Int) :
    mm.FillsPattern addr pgnum ↔ pgnum ≤ 0 := by
  constructor
  · rintro ⟨next, hfill, -⟩
    by_contra hpgnum
    rw [vmapPgdMemset_of_pt hpt addr (by omega)] at hfill
    cases hfill
  · intro hpgnum
    refine ⟨mm, vmapPgdMemset_of_nonpos mm addr hpgnum, ?_⟩
    intro page _
    refine ⟨fun hrange => ?_, fun _ => rfl⟩
    obtain ⟨hlow, hhigh⟩ := hrange
    omega

/-- In a new descriptor a range is filled exactly when it has no page. -/
theorem fillsPattern_initMm_iff (garbage : ListEnd) (addr : Addr) (pgnum : Int) :
    (initMm garbage).FillsPattern addr pgnum ↔ pgnum ≤ 0 :=
  fillsPattern_iff_of_pt rfl addr pgnum

/-- Filling the first page of a new descriptor dereferences `NULL`. -/
theorem not_fillsPattern_initMm :
    (initMm .null).vmapPgdMemset 0 1 = .error .nullDeref ∧
      ¬ (initMm .null).FillsPattern 0 1 := by
  have hfault : (initMm .null).vmapPgdMemset 0 1 = .error .nullDeref := rfl
  refine ⟨hfault, ?_⟩
  rintro ⟨next, hfill, -⟩
  rw [hfault] at hfill
  cases hfill

end MmStruct

end SimpleOs
