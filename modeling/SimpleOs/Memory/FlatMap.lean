import SimpleOs.Memory.Entry
import SimpleOs.Memory.ReadBack
import SimpleOs.Memory.Vm

/-! # The page table as a flat map

Seen through its leaves, the five-level table is a map from page numbers to entries. A
writer updates the map at its own page. The readers walk the same paths and allocate what
is missing there, but leave the map as it is.
-/

namespace SimpleOs

namespace MmStruct

/-- The bounds that `print_pgtbl` prints, those of area 0 when `end` is -1. -/
def printBounds (mm : MmStruct) (start stop : Addr) : Except Fault (Addr × Addr) :=
  if stop = -1 then do
    let curVma ← mm.getVmaByNum 0
    let vma ← mm.vmaAt curVma
    return (vma.vmStart, vma.vmEnd)
  else .ok (start, stop)

/-- `print_pgtbl`, which allocates the tables on the paths that it prints. -/
def printPgtblBetween (mm : MmStruct) (start stop : Addr) : Except Fault MmStruct := do
  let (start, stop) ← mm.printBounds start stop
  let pgnStart := (start >>> paging64AddrPtShift).toNat
  let pgnEnd := (stop >>> paging64AddrPtShift).toNat
  (List.range' pgnStart (pgnEnd + 1 - pgnStart)).foldlM
    (fun mm pgit => mm.updatePte (BitVec.ofNat 64 pgit) id) mm

/-- The library functions print area 0. -/
theorem printPgtblBetween_area (mm : MmStruct) (start : Addr) :
    mm.printPgtblBetween start (-1) = mm.printPgtbl := by
  unfold printPgtblBetween printBounds printPgtbl
  simp only [if_pos]
  cases mm.getVmaByNum 0 with
  | error fault => rfl
  | ok curVma => cases hvma : mm.vmaAt curVma <;> simp [hvma]

/-- The area 0 that `print_pgtbl` looks up. -/
def HasFirstArea (mm : MmStruct) : Prop :=
  ∃ curVma vma, mm.getVmaByNum 0 = .ok curVma ∧ mm.vmaAt curVma = .ok vma

end MmStruct

/-- The calls that walk the page table. -/
inductive TableCall where
  | set (call : PteCall)
  | getEntry (pgn : Addr)
  | printPgtbl (start stop : Addr)
  deriving DecidableEq

namespace TableCall

def run (mm : MmStruct) : TableCall → Except Fault MmStruct
  | set call => call.run mm
  | getEntry pgn => .ok (mm.pteGetEntry pgn).2
  | printPgtbl start stop => mm.printPgtblBetween start stop

def step (mm : MmStruct) (call : TableCall) : Option MmStruct := (call.run mm).toOption

/-- Page numbers are those of the 57-bit address space. -/
def InRange : TableCall → Prop
  | set call => call.InRange
  | getEntry pgn => pgn.toNat < 2 ^ 45
  | printPgtbl _ stop => stop = -1 ∨ (stop >>> paging64AddrPtShift).toNat < 2 ^ 45

instance (call : TableCall) : Decidable call.InRange := by
  cases call <;> unfold InRange <;> infer_instance

/-- What the call does to a flat map of entries. -/
def apply (entries : Addr → Addr) : TableCall → Addr → Addr
  | set call => Function.update entries call.pgn (call.entry (entries call.pgn))
  | getEntry _ => entries
  | printPgtbl _ _ => entries

/-- Printing area 0 takes an area 0. -/
def Defined (mm : MmStruct) (call : TableCall) : Prop :=
  mm.HasFirstArea ∨ ∀ start, call ≠ printPgtbl start (-1)

end TableCall

namespace MmStruct

/-- The table holds the entries of the flat map. -/
structure Flattens (mm : MmStruct) (entries : Addr → Addr) : Prop where
  directories : mm.HasDirectories
  leaf_eq : ∀ pgn : Addr, pgn.toNat < 2 ^ 45 → mm.leaf pgn = entries pgn

variable {mm next : MmStruct} {entries : Addr → Addr}

/-! ## One call -/

theorem flattens_leaf (hdirectories : mm.HasDirectories) : mm.Flattens mm.leaf :=
  ⟨hdirectories, fun _ _ => rfl⟩

theorem mmap_updatePte {pgn : Addr} {change : Addr → Addr}
    (hupdate : mm.updatePte pgn change = .ok next) : next.mmap = mm.mmap := by
  obtain ⟨pgd, -, rfl⟩ := updatePte_eq_ok hupdate
  rfl

/-- A writer updates the flat map. -/
theorem Flattens.set (hflattens : mm.Flattens entries) {call : PteCall} (hrange : call.InRange) :
    ∃ next, call.run mm = .ok next ∧ next.mmap = mm.mmap ∧
      next.Flattens ((TableCall.set call).apply entries) := by
  obtain ⟨pgd, hpgd⟩ := Option.isSome_iff_exists.mp hflattens.directories.1
  obtain ⟨next, hupdate⟩ := exists_updatePte hpgd call.pgn fun pte => call.entry pte
  refine ⟨next, (call.run_eq mm).trans hupdate, mmap_updatePte hupdate,
    (hflattens.directories.updatePte hupdate).1, fun pgn hpgn => ?_⟩
  simp only [TableCall.apply]
  by_cases hsame : pgn = call.pgn
  · subst hsame
    rw [Function.update_self, leaf_updatePte_self hupdate, hflattens.leaf_eq _ hpgn]
  · rw [Function.update_of_ne hsame, leaf_updatePte_of_ne hupdate hrange hpgn hsame,
      hflattens.leaf_eq pgn hpgn]

/-- A walk without a change keeps the flat map, although it allocates tables. -/
theorem Flattens.walk (hflattens : mm.Flattens entries) (pgn : Addr) :
    ∃ next, mm.updatePte pgn id = .ok next ∧ next.mmap = mm.mmap ∧ next.Flattens entries := by
  obtain ⟨pgd, hpgd⟩ := Option.isSome_iff_exists.mp hflattens.directories.1
  obtain ⟨next, hupdate⟩ := exists_updatePte hpgd pgn id
  refine ⟨next, hupdate, mmap_updatePte hupdate, (hflattens.directories.updatePte hupdate).1,
    fun other hother => ?_⟩
  rw [← hflattens.leaf_eq other hother]
  obtain ⟨found, hfound, rfl⟩ := updatePte_eq_ok hupdate
  simp only [leaf, hfound]
  apply Radix.get_modify_id

theorem Flattens.walks (hflattens : mm.Flattens entries) (pages : List Nat) :
    ∃ next, pages.foldlM (fun mm pgit => mm.updatePte (BitVec.ofNat 64 pgit) id) mm = .ok next ∧
      next.mmap = mm.mmap ∧ next.Flattens entries := by
  induction pages generalizing mm with
  | nil => exact ⟨mm, rfl, rfl, hflattens⟩
  | cons pgit rest ih =>
      obtain ⟨walked, hwalk, hmmap, hwalked⟩ := hflattens.walk (BitVec.ofNat 64 pgit)
      obtain ⟨next, hnext, hnextMmap, hnextFlattens⟩ := ih hwalked
      refine ⟨next, ?_, hnextMmap.trans hmmap, hnextFlattens⟩
      rw [List.foldlM_cons, hwalk]
      exact hnext

theorem exists_printBounds {start stop : Addr}
    (hdefined : (TableCall.printPgtbl start stop).Defined mm) :
    ∃ bounds, mm.printBounds start stop = .ok bounds := by
  unfold printBounds
  split
  next hstop =>
    subst hstop
    rcases hdefined with ⟨curVma, vma, hcurVma, hvma⟩ | hother
    · simp [hcurVma, hvma]
    · exact absurd rfl (hother start)
  next => simp

/-- Each call completes and does to the flat map what its name says. -/
theorem Flattens.run (hflattens : mm.Flattens entries) {call : TableCall}
    (hrange : call.InRange) (hdefined : call.Defined mm) :
    ∃ next, call.run mm = .ok next ∧ next.mmap = mm.mmap ∧
      next.Flattens (call.apply entries) := by
  cases call with
  | set call => exact hflattens.set hrange
  | getEntry pgn =>
      obtain ⟨walked, hwalked, htouched⟩ := mm.pteGetEntry_touched pgn
      refine ⟨walked, ?_, htouched.mmap, htouched.directories.mpr hflattens.directories,
        fun other hother => ?_⟩
      · simp [TableCall.run, hwalked]
      · rw [htouched.leaf]
        exact hflattens.leaf_eq other hother
  | printPgtbl start stop =>
      obtain ⟨⟨first, last⟩, hbounds⟩ := exists_printBounds hdefined
      obtain ⟨next, hnext, hmmap, hnextFlattens⟩ := hflattens.walks (List.range'
        (first >>> paging64AddrPtShift).toNat ((last >>> paging64AddrPtShift).toNat + 1 -
          (first >>> paging64AddrPtShift).toNat))
      refine ⟨next, ?_, hmmap, hnextFlattens⟩
      simp only [TableCall.run, printPgtblBetween, hbounds, ok_bind]
      exact hnext

/-- `pte_get_entry` returns the low half of the entry of its page. -/
theorem Flattens.pteGetEntry (hflattens : mm.Flattens entries) {pgn : Addr}
    (hpgn : pgn.toNat < 2 ^ 45) : (mm.pteGetEntry pgn).1 = (entries pgn).setWidth 32 := by
  obtain ⟨walked, hwalked, -⟩ := hflattens.directories.pteGetEntry pgn
  rw [hwalked, ← hflattens.leaf_eq pgn hpgn]
  rfl

/-! ## Any number of calls -/

/-- A completed call was defined. -/
theorem defined_of_run {call : TableCall} (hrun : call.run mm = .ok next) : call.Defined mm := by
  by_contra hundefined
  unfold TableCall.Defined at hundefined
  push Not at hundefined
  obtain ⟨hmissing, start, rfl⟩ := hundefined
  obtain ⟨bounds, hbounds, -⟩ := bind_eq_ok.mp hrun
  unfold printBounds at hbounds
  rw [if_pos rfl] at hbounds
  obtain ⟨curVma, hcurVma, hbounds⟩ := bind_eq_ok.mp hbounds
  obtain ⟨vma, hvma, -⟩ := bind_eq_ok.mp hbounds
  exact hmissing ⟨curVma, vma, hcurVma, hvma⟩

theorem Flattens.runs {final : MmStruct} (calls : List TableCall)
    (hrange : ∀ call ∈ calls, call.InRange) (hflattens : mm.Flattens entries)
    (hrun : Runs.run TableCall.step mm calls = some final) :
    final.Flattens (calls.foldl TableCall.apply entries) := by
  induction calls generalizing mm entries with
  | nil =>
      obtain rfl := Option.some.inj hrun
      exact hflattens
  | cons call rest ih =>
      obtain ⟨next, hstep, hrest⟩ := Option.bind_eq_some_iff.mp (Runs.run_cons .. ▸ hrun)
      have hcall := Runs.toOption_eq_some_iff.mp hstep
      obtain ⟨after, hafter, -, hnext⟩ :=
        hflattens.run (hrange call List.mem_cons_self) (defined_of_run hcall)
      obtain rfl := Except.ok.inj (hcall.symm.trans hafter)
      exact ih (fun later hlater => hrange later (List.mem_cons_of_mem _ hlater)) hnext hrest

/-- Nothing but a missing area 0 keeps a sequence of calls from completing. -/
theorem Flattens.exists_run (calls : List TableCall) (hrange : ∀ call ∈ calls, call.InRange)
    (hdefined : ∀ call ∈ calls, call.Defined mm) (hflattens : mm.Flattens entries) :
    ∃ final, Runs.run TableCall.step mm calls = some final := by
  induction calls generalizing mm entries with
  | nil => exact ⟨mm, rfl⟩
  | cons call rest ih =>
      obtain ⟨next, hcall, hmmap, hnext⟩ :=
        hflattens.run (hrange call List.mem_cons_self) (hdefined call List.mem_cons_self)
      have hrest : ∀ later ∈ rest, later.Defined next := by
        intro later hlater
        refine (hdefined later (List.mem_cons_of_mem _ hlater)).imp (fun harea => ?_) id
        unfold HasFirstArea getVmaByNum vmaAt at harea ⊢
        rwa [hmmap]
      obtain ⟨final, hfinal⟩ :=
        ih (fun later hlater => hrange later (List.mem_cons_of_mem _ hlater)) hrest hnext
      refine ⟨final, ?_⟩
      rw [Runs.run_cons, TableCall.step, hcall]
      exact hfinal

theorem getPdFromPagenum_lt (pgn : Addr) :
    let (pgd, p4d, pud, pmd, pt) := getPdFromPagenum pgn
    pgd.1.toNat < paging64MaxPgn ∧ p4d.1.toNat < paging64MaxPgn ∧ pud.1.toNat < paging64MaxPgn ∧
      pmd.1.toNat < paging64MaxPgn ∧ pt.1.toNat < paging64MaxPgn :=
  let path := getPdFromPagenum pgn
  ⟨path.1.2, path.2.1.2, path.2.2.1.2, path.2.2.2.1.2, path.2.2.2.2.2⟩

/-- Indices stay inside their tables, no two page numbers share a leaf, and the calls do to
the leaves what they do to a flat map. -/
theorem refines_flat_map (mm : MmStruct) (hdirectories : mm.HasDirectories)
    (calls : List TableCall) (hrange : ∀ call ∈ calls, call.InRange) :
    (∀ pgn, let (pgd, p4d, pud, pmd, pt) := getPdFromPagenum pgn
      pgd.1.toNat < paging64MaxPgn ∧ p4d.1.toNat < paging64MaxPgn ∧
        pud.1.toNat < paging64MaxPgn ∧ pmd.1.toNat < paging64MaxPgn ∧
        pt.1.toNat < paging64MaxPgn) ∧
    (∀ pgn other : Addr, pgn.toNat < 2 ^ 45 → other.toNat < 2 ^ 45 → pgn ≠ other →
      getPdFromPagenum pgn ≠ getPdFromPagenum other) ∧
    (∀ done final, done <+: calls → Runs.run TableCall.step mm done = some final →
      final.HasDirectories ∧ ∀ pgn : Addr, pgn.toNat < 2 ^ 45 →
        final.leaf pgn = done.foldl TableCall.apply mm.leaf pgn ∧
          (final.pteGetEntry pgn).1 = (done.foldl TableCall.apply mm.leaf pgn).setWidth 32) ∧
    ((∀ call ∈ calls, call.Defined mm) →
      ∃ final, Runs.run TableCall.step mm calls = some final) := by
  refine ⟨getPdFromPagenum_lt, ?_, ?_, ?_⟩
  · intro pgn other hpgn hother hne hsame
    exact hne (getPdFromPagenum_inj hpgn hother hsame)
  · intro done final hinitial hrun
    have hdone : ∀ call ∈ done, call.InRange :=
      fun call hcall => hrange call (hinitial.subset hcall)
    have hfinal := (flattens_leaf hdirectories).runs done hdone hrun
    exact ⟨hfinal.directories, fun pgn hpgn =>
      ⟨hfinal.leaf_eq pgn hpgn, hfinal.pteGetEntry hpgn⟩⟩
  · intro hdefined
    exact (flattens_leaf hdirectories).exists_run calls hrange hdefined

/-- Setting two neighbours, and reading and printing between. -/
theorem refines_flat_map_neighbours :
    ∃ final, Runs.run TableCall.step { initMm .null with pt := some fun _ => 0 }
        [.set (.setFpn 6 9), .getEntry 1000, .set (.setEntry 7 5), .printPgtbl 0 (-1)] =
          some final ∧ final.leaf 6 = 0x80000009 ∧ final.leaf 7 = 5 ∧ final.leaf 1000 = 0 := by
  obtain ⟨-, -, hleaves, hcompletes⟩ := refines_flat_map
    { initMm .null with pt := some fun _ => 0 } (by decide)
    [.set (.setFpn 6 9), .getEntry 1000, .set (.setEntry 7 5), .printPgtbl 0 (-1)] (by decide)
  obtain ⟨final, hfinal⟩ := hcompletes fun _ _ => Or.inl ⟨_, _, rfl, rfl⟩
  obtain ⟨-, hflat⟩ := hleaves _ final List.prefix_rfl hfinal
  refine ⟨final, hfinal, ?_, ?_, ?_⟩
  · exact (hflat 6 (by decide)).1.trans (by decide)
  · exact (hflat 7 (by decide)).1.trans (by decide)
  · exact (hflat 1000 (by decide)).1.trans (by decide)

end MmStruct

end SimpleOs
