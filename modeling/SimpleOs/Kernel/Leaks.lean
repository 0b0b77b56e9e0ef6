import SimpleOs.Kernel.RegionRuns

/-! # Addresses that allocations hand out

A release moves a region to the free list, and the search for a free region splits it or
moves it to a register, so neither loses an address. But `__alloc` overwrites the register,
and nothing takes back the region that it held. Its addresses stay in some region only where
they happen to lie in another one or in what the call itself puts in place.
-/

namespace SimpleOs

open VmRgStruct

instance (rg : VmRgStruct) (addr : Addr) : Decidable (rg.Contains addr) :=
  inferInstanceAs (Decidable (_ ∧ _))

namespace Regions

/-- Some live or free region contains the address. -/
def Covers (regions : Regions) (addr : Addr) : Prop :=
  (∃ rgid, (regions.table rgid).Contains addr) ∨ ∃ rg ∈ regions.free.nodes, rg.Contains addr

/-- The address lies in what an allocation puts in place: growth the addresses below the size,
reuse the rest of the free region that it cuts. -/
def Brings (regions : Regions) (size addr : Addr) : Prop :=
  match regions.firstFit size with
  | none => addr < size
  | some fit => fit.rgStart + ofCInt (toCInt size) ≤ addr ∧ addr < fit.rgEnd

/-- The address lies in a region other than that of the register, or in what an allocation for
the register puts in place. -/
def CoversWithout (regions : Regions) (rgid : Fin pagingMaxSymtblSz) (size addr : Addr) : Prop :=
  (∃ other, other ≠ rgid ∧ (regions.table other).Contains addr) ∨
    (∃ rg ∈ regions.free.nodes, rg.Contains addr) ∨ regions.Brings size addr

variable {regions next : Regions} {rgid : Fin pagingMaxSymtblSz} {size addr : Addr}

/-- What an assignment to a register leaves covered. -/
theorem covers_update_iff {table : Fin pagingMaxSymtblSz → VmRgStruct} {rg : VmRgStruct}
    {free : Chain VmRgStruct} :
    Covers { table := Function.update table rgid rg, free := free } addr ↔
      rg.Contains addr ∨ (∃ other, other ≠ rgid ∧ (table other).Contains addr) ∨
        ∃ node ∈ free.nodes, node.Contains addr := by
  unfold Covers
  rw [← or_assoc]
  refine or_congr_left ⟨?_, ?_⟩
  · rintro ⟨found, hfound⟩
    simp only at hfound
    by_cases hsame : found = rgid
    · subst hsame
      rw [Function.update_self] at hfound
      exact Or.inl hfound
    · rw [Function.update_of_ne hsame] at hfound
      exact Or.inr ⟨found, hsame, hfound⟩
  · rintro (hrg | ⟨other, hother, hcontains⟩)
    · exact ⟨rgid, by simpa only [Function.update_self] using hrg⟩
    · exact ⟨other, by simpa only [Function.update_of_ne hother] using hcontains⟩

/-- One node of a free list apart from the others. -/
theorem exists_mem_middle {before after : List VmRgStruct} {rg : VmRgStruct} :
    (∃ node ∈ before ++ rg :: after, node.Contains addr) ↔
      rg.Contains addr ∨ ∃ node ∈ before ++ after, node.Contains addr := by
  constructor
  · rintro ⟨node, hnode, hcontains⟩
    rcases List.mem_cons.mp (List.perm_middle.subset hnode) with rfl | hnode
    · exact Or.inl hcontains
    · exact Or.inr ⟨node, hnode, hcontains⟩
  · rintro (hcontains | ⟨node, hnode, hcontains⟩)
    · exact ⟨rg, List.mem_append_right _ List.mem_cons_self, hcontains⟩
    · exact ⟨node, List.perm_middle.symm.subset (List.mem_cons_of_mem _ hnode), hcontains⟩

theorem brings_of_some {fit : VmRgStruct} (hfit : regions.firstFit size = some fit) :
    regions.Brings size addr ↔
      fit.rgStart + ofCInt (toCInt size) ≤ addr ∧ addr < fit.rgEnd := by
  unfold Brings
  rw [hfit]

/-- What covers an address may be taken apart as long as the parts cover it. -/
theorem or_parts {part rest whole others nodes : Prop} (hparts : part ∨ rest ↔ whole ∨ rest) :
    part ∨ others ∨ rest ∨ nodes ↔ others ∨ (whole ∨ nodes) ∨ rest := by
  tauto

/-- An allocation leaves covered what it put in place and what the other regions cover. -/
theorem AllocCase.covers_iff (hcase : AllocCase regions rgid size next) :
    next.Covers addr ↔ regions.CoversWithout rgid size addr := by
  unfold CoversWithout
  cases hcase with
  | growth hnone =>
      have hfit : regions.firstFit size = none := by
        unfold firstFit
        simpa using hnone
      have hbelow : Contains { rgStart := 0, rgEnd := size } addr ↔
          regions.Brings size addr := by
        unfold Brings
        rw [hfit]
        exact ⟨fun hcontains => hcontains.2, fun hlt => ⟨by simp only; bv_omega, hlt⟩⟩
      rw [covers_update_iff, hbelow]
      exact or_rotate
  | remainder before after fit hnodes hbefore hfits stop =>
      have hrest : Contains
          { rgStart := fit.rgStart + ofCInt (toCInt size), rgEnd := fit.rgEnd } addr ↔
            regions.Brings size addr :=
        (brings_of_some (firstFit_eq_some hnodes (BitVec.le_of_lt hfits) hbefore)).symm
      rw [covers_update_iff, hnodes, exists_mem_middle, exists_mem_middle, ← hrest]
      apply or_parts
      generalize ofCInt (toCInt size) = taken at hfits
      unfold Contains
      simp only
      bv_omega
  | whole before after fit hnodes hbefore hafter hfits stop =>
      have hnothing : ¬ regions.Brings size addr := by
        rw [brings_of_some (firstFit_eq_some hnodes (BitVec.le_of_eq hfits) hbefore), hfits]
        exact fun hrange => BitVec.not_le.mpr hrange.2 hrange.1
      rw [covers_update_iff, hnodes, exists_mem_middle, hfits, or_iff_left hnothing]
      exact or_left_comm
  | nothing before hnodes hbefore hsize stop =>
      have hle := VmRgStruct.fits_cleared hsize
      have hnothing : ¬ regions.Brings size addr := by
        rw [brings_of_some (firstFit_eq_some hnodes hle hbefore)]
        exact fun hrange => BitVec.not_lt_zero hrange.2
      have hempty : ¬ Contains { rgStart := 0, rgEnd := 0 } addr :=
        not_contains_of_empty (BitVec.le_refl _) addr
      rw [covers_update_iff, or_iff_right hempty, or_iff_left hnothing]

/-- A release keeps every address covered. -/
theorem Covers.release (hcovers : regions.Covers addr) (rgid : Fin pagingMaxSymtblSz) :
    (regions.release rgid).Covers addr := by
  unfold Regions.release
  rw [covers_update_iff]
  rcases hcovers with ⟨found, hfound⟩ | ⟨rg, hrg, hcontains⟩
  · by_cases hsame : found = rgid
    · subst hsame
      have hnonempty : ¬ (regions.table found).rgStart ≥ (regions.table found).rgEnd :=
        fun hempty => not_contains_of_empty hempty addr hfound
      rw [if_neg hnonempty]
      exact Or.inr (Or.inr ⟨_, List.mem_cons_self, hfound⟩)
    · exact Or.inr (Or.inl ⟨found, hsame, hfound⟩)
  · refine Or.inr (Or.inr ⟨rg, ?_, hcontains⟩)
    split
    next => exact hrg
    next => exact List.mem_cons_of_mem _ hrg

end Regions

variable {Proc : Type}

/-- A kernel, with the regions that allocations have handed out. -/
structure Handing (Proc : Type) where
  krnl : Krnl Proc
  handed : List VmRgStruct

namespace Handing

/-- One call. An allocation hands out the region that it leaves in the register. -/
def step (pidOf : Proc → Except Fault Word32) (junk : Byte) (pid : Word32)
    (state : Handing Proc) (call : RegionCall) : Option (Handing Proc) :=
  (RegionCall.step pidOf junk pid state.krnl call).map fun krnl =>
    { krnl := krnl
      handed :=
        match call with
        | .alloc rgid _ => krnl.mm.symrgtbl rgid :: state.handed
        | .free _ => state.handed }

/-- Every address of a region that was handed out is in a live or a free region. -/
def Conserved (state : Handing Proc) : Prop :=
  ∀ rg ∈ state.handed, ∀ addr, rg.Contains addr → state.krnl.mm.regions.Covers addr

/-- The condition on one call, in the state before it: the register of an allocation holds no
address that would be in no region any more. -/
def Spares (state : Handing Proc) : RegionCall → Prop
  | .alloc rgid size => ∀ addr, (state.krnl.mm.symrgtbl rgid).Contains addr →
      state.krnl.mm.regions.CoversWithout rgid size addr
  | .free _ => True

/-- What the calls keep, whether or not they leak: the live regions were handed out. -/
structure Tracked (state : Handing Proc) : Prop where
  ready : RegionCall.Ready state.krnl
  live : ∀ rgid addr, (state.krnl.mm.symrgtbl rgid).Contains addr →
    ∃ rg ∈ state.handed, rg.Contains addr

variable {pidOf : Proc → Except Fault Word32} {junk : Byte} {pid : Word32}
  {state next : Handing Proc} {call : RegionCall}

/-- The other registers keep their regions. -/
theorem symrgtbl_of_alloc {krnl after : Krnl Proc} {rgid other : Fin pagingMaxSymtblSz}
    {size : Addr}
    (hcase : Regions.AllocCase krnl.mm.regions rgid size after.mm.regions)
    (hother : other ≠ rgid) : after.mm.symrgtbl other = krnl.mm.symrgtbl other := by
  change after.mm.regions.table other = krnl.mm.regions.table other
  generalize after.mm.regions = regions at hcase
  cases hcase with
  | growth hnone => exact Function.update_of_ne hother _ _
  | remainder before after fit hnodes hbefore hfits stop => exact Function.update_of_ne hother _ _
  | whole before after fit hnodes hbefore hafter hfits stop =>
      exact Function.update_of_ne hother _ _
  | nothing before hnodes hbefore hsize stop => exact Function.update_of_ne hother _ _

theorem Tracked.step (htracked : Tracked state)
    (hstep : Handing.step pidOf junk pid state call = some next) : Tracked next := by
  obtain ⟨krnl, hcall, rfl⟩ := Option.map_eq_some_iff.mp hstep
  refine { ready := htracked.ready.step hcall, live := ?_ }
  cases call with
  | alloc rgid size =>
      intro found addr hcontains
      by_cases hsame : found = rgid
      · subst hsame
        exact ⟨_, List.mem_cons_self, hcontains⟩
      · change (krnl.mm.symrgtbl found).Contains addr at hcontains
        rw [symrgtbl_of_alloc (htracked.ready.alloc_step hcall).2 hsame] at hcontains
        obtain ⟨rg, hrg, hmem⟩ := htracked.live found addr hcontains
        exact ⟨rg, List.mem_cons_of_mem _ hrg, hmem⟩
  | free rgid =>
      intro found addr hcontains
      change (krnl.mm.regions.table found).Contains addr at hcontains
      rw [(htracked.ready.free_step hcall).2] at hcontains
      change ((Function.update state.krnl.mm.symrgtbl rgid { rgStart := 0, rgEnd := 0 }) found
        ).Contains addr at hcontains
      by_cases hsame : found = rgid
      · subst hsame
        rw [Function.update_self] at hcontains
        exact absurd hcontains (not_contains_of_empty (BitVec.le_refl _) addr)
      · rw [Function.update_of_ne hsame] at hcontains
        exact htracked.live found addr hcontains

/-- From a state without leaks, a call makes none exactly when it spares what its register
holds. -/
theorem Tracked.conserved_iff (htracked : Tracked state) (hconserved : Conserved state)
    (hstep : Handing.step pidOf junk pid state call = some next) :
    Conserved next ↔ state.Spares call := by
  obtain ⟨krnl, hcall, rfl⟩ := Option.map_eq_some_iff.mp hstep
  cases call with
  | alloc rgid size =>
      have hcase := (htracked.ready.alloc_step hcall).2
      constructor
      · intro hnext addr hcontains
        obtain ⟨rg, hrg, hmem⟩ := htracked.live rgid addr hcontains
        exact hcase.covers_iff.mp (hnext rg (List.mem_cons_of_mem _ hrg) addr hmem)
      · intro hspares rg hrg addr hcontains
        rcases List.mem_cons.mp hrg with rfl | hrg
        · exact Or.inl ⟨rgid, hcontains⟩
        · refine hcase.covers_iff.mpr ?_
          rcases hconserved rg hrg addr hcontains with ⟨found, hfound⟩ | hfree
          · by_cases hsame : found = rgid
            · subst hsame
              exact hspares addr hfound
            · exact Or.inl ⟨found, hsame, hfound⟩
          · exact Or.inr (Or.inl hfree)
  | free rgid =>
      refine iff_of_true (fun rg hrg addr hcontains => ?_) trivial
      rw [(htracked.ready.free_step hcall).2]
      exact (hconserved rg hrg addr hcontains).release rgid

theorem tracked_initMm (boot : Krnl Proc) (garbage : ListEnd) :
    Tracked { krnl := boot.initMm garbage, handed := [] } where
  ready := RegionCall.ready_initMm boot garbage
  live _ addr hcontains := absurd hcontains (not_contains_of_empty (BitVec.le_refl _) addr)

/-- No address that was handed out is lost in a run exactly when every allocation of the run
spares what its register holds. -/
theorem conserved_iff_spares (pidOf : Proc → Except Fault Word32) (junk : Byte) (pid : Word32)
    (boot : Krnl Proc) (garbage : ListEnd) (calls : List RegionCall) :
    (∀ state ∈ Runs.visited (step pidOf junk pid)
        { krnl := boot.initMm garbage, handed := [] } calls, state.Conserved) ↔
      ∀ move ∈ Runs.taken (step pidOf junk pid)
          { krnl := boot.initMm garbage, handed := [] } calls,
        move.1.Spares move.2 :=
  Runs.visited_iff_taken Tracked Conserved (fun _ => True) Spares
    (fun _ _ _ _ htracked hstep => htracked.step hstep)
    (fun _ _ _ _ htracked hconserved hstep => htracked.conserved_iff hconserved hstep)
    (fun _ _ => trivial) (tracked_initMm boot garbage) (fun _ hrg => by cases hrg)

/-- A register that holds nothing has nothing to lose. -/
theorem spares_of_released {rgid : Fin pagingMaxSymtblSz} {size : Addr}
    (hempty : (state.krnl.mm.symrgtbl rgid).rgEnd ≤ (state.krnl.mm.symrgtbl rgid).rgStart) :
    state.Spares (.alloc rgid size) :=
  fun addr hcontains => absurd hcontains (not_contains_of_empty hempty addr)

/-- Allocating 200 and then 100 bytes for the same register loses the last 100. -/
theorem not_conserved_reallocated :
    ∃ state, Runs.run (step (fun _ => .ok 1) 0 1)
        { krnl := singleProcess.initMm .null, handed := [] }
        [.alloc 0 200, .alloc 0 100] = some state ∧ ¬ state.Conserved := by
  have hregions : (Runs.run (step (fun _ => .ok 1) 0 1)
      { krnl := singleProcess.initMm .null, handed := [] }
      [.alloc 0 200, .alloc 0 100]).map
        (fun state => (state.handed, state.krnl.mm.regions.free.nodes,
          decide (∀ rgid, ¬ (state.krnl.mm.symrgtbl rgid).Contains 150))) =
      some ([{ rgStart := 0, rgEnd := 100 }, { rgStart := 0, rgEnd := 200 }],
        [{ rgStart := 0, rgEnd := 0 }], true) := by
    decide +kernel
  obtain ⟨state, hrun, hparts⟩ := Option.map_eq_some_iff.mp hregions
  obtain ⟨hhanded, hparts⟩ := Prod.mk.inj hparts
  obtain ⟨hfree, hlive⟩ := Prod.mk.inj hparts
  refine ⟨state, hrun, fun hconserved => ?_⟩
  have hmem : { rgStart := 0, rgEnd := 200 } ∈ state.handed := by
    rw [hhanded]
    decide
  rcases hconserved _ hmem 150 (by unfold Contains; decide) with ⟨rgid, hrgid⟩ | ⟨rg, hrg, hin⟩
  · exact of_decide_eq_true hlive rgid hrgid
  · rw [hfree, List.mem_singleton] at hrg
    subst hrg
    exact not_contains_of_empty (BitVec.le_refl _) _ hin

end Handing

end SimpleOs
