import Mathlib.Tactic.Tauto
import SimpleOs.Memory.Regions

/-! # When allocation keeps regions apart

A call can break the disjointness of the regions in two ways. Growth always hands out
the addresses from 0, since the break never moves. Reuse adds a size narrowed to `int`,
which can carry the start of a free region backwards. The condition below excludes
exactly these two, and from disjoint regions it is necessary as well as sufficient.
-/

namespace SimpleOs

namespace VmRgStruct

def Contains (rg : VmRgStruct) (addr : Addr) : Prop := rg.rgStart ≤ addr ∧ addr < rg.rgEnd

/-- No address belongs to both regions. -/
def Apart (rg other : VmRgStruct) : Prop := ∀ addr, ¬ (rg.Contains addr ∧ other.Contains addr)

variable {rg other part : VmRgStruct}

theorem Apart.symm (hapart : rg.Apart other) : other.Apart rg :=
  fun addr hboth => hapart addr ⟨hboth.2, hboth.1⟩

theorem Apart.mono (hapart : rg.Apart other)
    (hpart : ∀ addr, part.Contains addr → rg.Contains addr) : part.Apart other :=
  fun addr hboth => hapart addr ⟨hpart addr hboth.1, hboth.2⟩

theorem not_contains_of_empty (hempty : rg.rgEnd ≤ rg.rgStart) (addr : Addr) :
    ¬ rg.Contains addr := by
  unfold Contains
  bv_omega

theorem apart_of_empty (hempty : rg.rgEnd ≤ rg.rgStart) (other : VmRgStruct) :
    rg.Apart other :=
  fun addr hboth => not_contains_of_empty hempty addr hboth.1

/-- The addresses from 0 on meet every non-empty region that starts below their end. -/
theorem apart_from_zero_iff (size : Addr) (other : VmRgStruct) :
    Apart { rgStart := 0, rgEnd := size } other ↔
      (other.rgStart < other.rgEnd → size ≤ other.rgStart) := by
  constructor
  · intro hapart hnonempty
    by_contra hbelow
    refine hapart other.rgStart ⟨⟨?_, BitVec.not_le.mp hbelow⟩, ⟨BitVec.le_refl _, hnonempty⟩⟩
    change (0 : Addr) ≤ other.rgStart
    bv_omega
  · rintro hstart addr ⟨⟨-, hbelow⟩, ⟨habove, hinside⟩⟩
    have hnonempty : other.rgStart < other.rgEnd := by bv_omega
    have hle := hstart hnonempty
    simp only at hbelow
    bv_omega

end VmRgStruct

open VmRgStruct

namespace Regions

/-- No address belongs to two live registers, to two free regions, or to a live register
and a free region. -/
structure Disjoint (regions : Regions) : Prop where
  live_live : ∀ rgid other, rgid ≠ other →
    (regions.table rgid).Apart (regions.table other)
  free_free : regions.free.nodes.Pairwise Apart
  live_free : ∀ rgid, ∀ rg ∈ regions.free.nodes, (regions.table rgid).Apart rg

/-- Every region except that of one register has the property. -/
def EveryOther (regions : Regions) (rgid : Fin pagingMaxSymtblSz)
    (property : VmRgStruct → Prop) : Prop :=
  (∀ other, other ≠ rgid → property (regions.table other)) ∧
    ∀ rg ∈ regions.free.nodes, property rg

/-- The form of the free list: the empty region that `init_mm` enlisted, behind regions
that are not empty. -/
def Shaped (nodes : List VmRgStruct) : Prop :=
  ∃ front, nodes = front ++ [{ rgStart := 0, rgEnd := 0 }] ∧ ∀ rg ∈ front, rg.rgStart < rg.rgEnd

/-- The first free region that the search for a size takes. -/
def firstFit (regions : Regions) (size : Addr) : Option VmRgStruct :=
  regions.free.nodes.find? fun rg => rg.Fits (ofCInt (toCInt size))

/-- An allocation hands out or frees no address of another region. Growth needs every
other non-empty region at or above the size. Reuse needs that adding the size does not
carry the start backwards, or only over addresses of no other region. -/
def KeepsApart (regions : Regions) (rgid : Fin pagingMaxSymtblSz) (size : Addr) : Prop :=
  match regions.firstFit size with
  | none => regions.EveryOther rgid fun rg => rg.rgStart < rg.rgEnd → size ≤ rg.rgStart
  | some fit =>
      fit.rgStart ≤ fit.rgStart + ofCInt (toCInt size) ∨
        regions.EveryOther rgid fun rg => ∀ addr, rg.Contains addr →
          ¬ (fit.rgStart + ofCInt (toCInt size) ≤ addr ∧ addr < fit.rgStart)

variable {regions next : Regions} {rgid : Fin pagingMaxSymtblSz} {size : Addr}

/-! ## Changing one region -/

/-- Overwriting a symbol region keeps disjoint regions disjoint when the new one is apart
from all others. -/
theorem Disjoint.update_iff (hdisjoint : regions.Disjoint) (rgid : Fin pagingMaxSymtblSz)
    (rg : VmRgStruct) :
    Disjoint { regions with table := Function.update regions.table rgid rg } ↔
      regions.EveryOther rgid rg.Apart := by
  constructor
  · intro hnext
    refine ⟨fun other hother => ?_, fun node hnode => ?_⟩
    · have hapart := hnext.live_live rgid other hother.symm
      simpa only [Function.update_self, Function.update_of_ne hother] using hapart
    · have hapart := hnext.live_free rgid node hnode
      simpa only [Function.update_self] using hapart
  · rintro ⟨hlive, hfree⟩
    refine { live_live := ?_, free_free := hdisjoint.free_free, live_free := ?_ }
    -- the changed register can be either side of a pair of live ones
    · intro first second hne
      change Apart (Function.update regions.table rgid rg first)
        (Function.update regions.table rgid rg second)
      by_cases hfirst : first = rgid
      · subst hfirst
        rw [Function.update_self, Function.update_of_ne hne.symm]
        exact hlive second hne.symm
      · rw [Function.update_of_ne hfirst]
        by_cases hsecond : second = rgid
        · subst hsecond
          rw [Function.update_self]
          exact (hlive first hfirst).symm
        · rw [Function.update_of_ne hsecond]
          exact hdisjoint.live_live first second hne
    · intro other node hnode
      change Apart (Function.update regions.table rgid rg other) node
      by_cases hother : other = rgid
      · subst hother
        rw [Function.update_self]
        exact hfree node hnode
      · rw [Function.update_of_ne hother]
        exact hdisjoint.live_free other node hnode

/-- An empty region is apart from all others. -/
theorem Disjoint.clear (hdisjoint : regions.Disjoint) (rgid : Fin pagingMaxSymtblSz) :
    Disjoint { regions with
      table := Function.update regions.table rgid { rgStart := 0, rgEnd := 0 } } := by
  rw [hdisjoint.update_iff]
  exact ⟨fun other _ => apart_of_empty (BitVec.le_refl _) _,
    fun node _ => apart_of_empty (BitVec.le_refl _) _⟩

/-- A region in the middle of the free list is one more region to be apart from. -/
theorem disjoint_middle_iff {table : Fin pagingMaxSymtblSz → VmRgStruct}
    (before : List VmRgStruct) {after : List VmRgStruct} {rg : VmRgStruct} {stop : ListEnd}
    (rest : ListEnd) :
    Disjoint { table := table, free := { nodes := before ++ rg :: after, stop := stop } } ↔
      Disjoint { table := table, free := { nodes := before ++ after, stop := rest } } ∧
        (∀ rgid, rg.Apart (table rgid)) ∧ ∀ node ∈ before ++ after, rg.Apart node := by
  have hmem : ∀ node, node ∈ before ++ rg :: after ↔ node = rg ∨ node ∈ before ++ after := by
    intro node
    simp only [List.mem_append, List.mem_cons]
    tauto
  constructor
  · intro hall
    have hpairs := (List.pairwise_middle Apart.symm).mp hall.free_free
    rw [List.pairwise_cons] at hpairs
    refine ⟨{ live_live := hall.live_live, free_free := hpairs.2, live_free := ?_ }, ?_, hpairs.1⟩
    · exact fun other node hnode => hall.live_free other node ((hmem node).mpr (Or.inr hnode))
    · exact fun other => (hall.live_free other rg ((hmem rg).mpr (Or.inl rfl))).symm
  · rintro ⟨hrest, hlive, hfree⟩
    refine { live_live := hrest.live_live, free_free := ?_, live_free := ?_ }
    · exact (List.pairwise_middle Apart.symm).mpr
        (List.pairwise_cons.mpr ⟨hfree, hrest.free_free⟩)
    · intro other node hnode
      rcases (hmem node).mp hnode with rfl | hnode
      · exact (hlive other).symm
      · exact hrest.live_free other node hnode

theorem Disjoint.middle {before after : List VmRgStruct} {rg : VmRgStruct}
    (hdisjoint : regions.Disjoint) (hnodes : regions.free.nodes = before ++ rg :: after)
    (stop : ListEnd) :
    Disjoint { table := regions.table, free := { nodes := before ++ after, stop := stop } } ∧
      (∀ rgid, rg.Apart (regions.table rgid)) ∧ ∀ node ∈ before ++ after, rg.Apart node := by
  obtain ⟨table, nodes, rest⟩ := regions
  subst hnodes
  exact (disjoint_middle_iff before stop).mp hdisjoint

/-- Releasing a region moves it from the table to the free list. -/
theorem Disjoint.release (hdisjoint : regions.Disjoint) (rgid : Fin pagingMaxSymtblSz) :
    (regions.release rgid).Disjoint := by
  have hzero := hdisjoint.clear rgid
  unfold Regions.release
  by_cases hempty : (regions.table rgid).rgStart ≥ (regions.table rgid).rgEnd
  · simp only [if_pos hempty]
    exact hzero
  · simp only [if_neg hempty]
    refine (disjoint_middle_iff [] regions.free.stop).mpr
      ⟨hzero, fun other => ?_, fun node hnode => hdisjoint.live_free rgid node hnode⟩
    by_cases hother : other = rgid
    · subst hother
      rw [Function.update_self]
      exact (apart_of_empty (BitVec.le_refl _) _).symm
    · rw [Function.update_of_ne hother]
      exact hdisjoint.live_live rgid other (Ne.symm hother)

theorem Shaped.release (hshaped : Shaped regions.free.nodes) (rgid : Fin pagingMaxSymtblSz) :
    Shaped (regions.release rgid).free.nodes := by
  obtain ⟨front, hnodes, hfront⟩ := hshaped
  unfold Regions.release
  by_cases hempty : (regions.table rgid).rgStart ≥ (regions.table rgid).rgEnd
  · simp only [if_pos hempty]
    exact ⟨front, hnodes, hfront⟩
  · simp only [if_neg hempty]
    refine ⟨regions.table rgid :: front, by simp [enlistVmRgNode, hnodes], ?_⟩
    intro rg hrg
    rcases List.mem_cons.mp hrg with rfl | hrg
    · exact BitVec.not_le.mp hempty
    · exact hfront rg hrg

/-! ## Allocating -/

/-- The free list at one of its nodes: the last node is the enlisted empty region, and
any other node is not empty and can be replaced or removed. -/
theorem Shaped.split {before after : List VmRgStruct} {rg : VmRgStruct}
    (hshaped : Shaped (before ++ rg :: after)) :
    (after = [] ∧ rg = { rgStart := 0, rgEnd := 0 }) ∨
    (after ≠ [] ∧ rg.rgStart < rg.rgEnd ∧ Shaped (before ++ after) ∧
      ∀ rest : VmRgStruct, rest.rgStart < rest.rgEnd → Shaped (before ++ rest :: after)) := by
  obtain ⟨front, hnodes, hfront⟩ := hshaped
  rcases List.eq_nil_or_concat after with rfl | ⟨middle, last, rfl⟩
  · obtain ⟨-, hlast⟩ := List.append_inj' hnodes rfl
    exact Or.inl ⟨rfl, List.head_eq_of_cons_eq hlast⟩
  · rw [List.concat_eq_append, ← List.cons_append, ← List.append_assoc] at hnodes
    obtain ⟨rfl, hlast⟩ := List.append_inj' hnodes rfl
    obtain rfl := List.head_eq_of_cons_eq hlast
    have hbefore : ∀ other ∈ before, other.rgStart < other.rgEnd :=
      fun other hother => hfront other (List.mem_append_left _ hother)
    have hmiddle : ∀ other ∈ middle, other.rgStart < other.rgEnd := fun other hother =>
      hfront other (List.mem_append_right _ (List.mem_cons_of_mem _ hother))
    refine Or.inr ⟨by simp, hfront rg (by simp), ⟨before ++ middle, by simp, ?_⟩, ?_⟩
    · intro other hother
      rcases List.mem_append.mp hother with hother | hother
      · exact hbefore other hother
      · exact hmiddle other hother
    · refine fun rest hrest => ⟨before ++ rest :: middle, by simp, fun other hother => ?_⟩
      rcases List.mem_append.mp hother with hother | hother
      · exact hbefore other hother
      · rcases List.mem_cons.mp hother with rfl | hother
        · exact hrest
        · exact hmiddle other hother

/-- All that an allocation can do to the regions of an area with its break at 0. -/
inductive AllocCase (regions : Regions) (rgid : Fin pagingMaxSymtblSz) (size : Addr) :
    Regions → Prop where
  | growth (hnone : ∀ rg ∈ regions.free.nodes, ¬ rg.Fits (ofCInt (toCInt size))) :
      AllocCase regions rgid size
        { regions with
          table := Function.update regions.table rgid { rgStart := 0, rgEnd := size } }
  | remainder (before after : List VmRgStruct) (fit : VmRgStruct)
      (hnodes : regions.free.nodes = before ++ fit :: after)
      (hbefore : ∀ rg ∈ before, ¬ rg.Fits (ofCInt (toCInt size)))
      (hfits : fit.rgStart + ofCInt (toCInt size) < fit.rgEnd) (stop : ListEnd) :
      AllocCase regions rgid size
        { table := Function.update regions.table rgid
            { rgStart := fit.rgStart, rgEnd := fit.rgStart + ofCInt (toCInt size) }
          free :=
            { nodes := before ++
                { rgStart := fit.rgStart + ofCInt (toCInt size), rgEnd := fit.rgEnd } :: after
              stop := stop } }
  | whole (before after : List VmRgStruct) (fit : VmRgStruct)
      (hnodes : regions.free.nodes = before ++ fit :: after)
      (hbefore : ∀ rg ∈ before, ¬ rg.Fits (ofCInt (toCInt size))) (hafter : after ≠ [])
      (hfits : fit.rgStart + ofCInt (toCInt size) = fit.rgEnd) (stop : ListEnd) :
      AllocCase regions rgid size
        { table := Function.update regions.table rgid
            { rgStart := fit.rgStart, rgEnd := fit.rgStart + ofCInt (toCInt size) }
          free := { nodes := before ++ after, stop := stop } }
  | nothing (before : List VmRgStruct)
      (hnodes : regions.free.nodes = before ++ [{ rgStart := 0, rgEnd := 0 }])
      (hbefore : ∀ rg ∈ before, ¬ rg.Fits (ofCInt (toCInt size)))
      (hsize : ofCInt (toCInt size) = 0) (stop : ListEnd) :
      AllocCase regions rgid size
        { table := Function.update regions.table rgid { rgStart := 0, rgEnd := 0 }
          free := { nodes := regions.free.nodes, stop := stop } }

theorem alloc_cases (hshaped : Shaped regions.free.nodes)
    (halloc : regions.alloc 0 rgid size = .ok next) : AllocCase regions rgid size next := by
  obtain ⟨⟨newrg, list⟩, hsearch, hnext⟩ := map_eq_ok.mp halloc
  by_cases hnone : ∀ rg ∈ regions.free.nodes, ¬ rg.Fits (ofCInt (toCInt size))
  · cases searchRegion_eq_ok_of_no_fit hnone hsearch
    subst hnext
    have hgrowth : AllocCase regions rgid size _ := AllocCase.growth hnone
    have hzero : (0 : Addr) + size = size := by bv_omega
    simp only [Option.filter_none, Option.getD_none, hzero]
    exact hgrowth
  · obtain ⟨before, fit, after, hnodes, hfits, hbefore⟩ := exists_first_fit hnone
    rw [hnodes, searchRegion_of_fit hbefore hfits] at hsearch
    obtain ⟨taken, htaken, hpair⟩ := map_eq_ok.mp hsearch
    cases hpair
    -- a region at -1 would have to end beyond it
    have hstart : fit.rgStart ≠ -1 := by
      rw [hnodes] at hshaped
      rcases hshaped.split with ⟨-, rfl⟩ | ⟨-, hnonempty, -, -⟩
      · decide
      · bv_omega
    simp only [Option.filter_some, bne_iff_ne, ne_eq, hstart, not_false_eq_true,
      if_true, Option.getD_some] at hnext
    subst hnext
    by_cases hlt : fit.rgStart + ofCInt (toCInt size) < fit.rgEnd
    · have hrest : taken.nodes =
          { rgStart := fit.rgStart + ofCInt (toCInt size), rgEnd := fit.rgEnd } :: after := by
        unfold takeRegion at htaken
        cases after <;> simp only [if_pos hlt] at htaken <;> cases htaken <;> rfl
      rw [hrest]
      exact AllocCase.remainder before after fit hnodes hbefore hlt taken.stop
    · have hwhole : fit.rgStart + ofCInt (toCInt size) = fit.rgEnd :=
        BitVec.le_antisymm hfits (BitVec.not_lt.mp hlt)
      cases after with
      | cons second rest =>
          have hrest : taken.nodes = second :: rest := by
            unfold takeRegion at htaken
            simp only [if_neg hlt] at htaken
            cases htaken
            rfl
          rw [hrest]
          exact AllocCase.whole before (second :: rest) fit hnodes hbefore (by simp) hwhole
            taken.stop
      | nil =>
          -- the last node is the region that `init_mm` enlisted, and only size 0 fits it
          rw [hnodes] at hshaped
          rcases hshaped.split with ⟨-, rfl⟩ | ⟨hafter, -⟩
          · have hzero : ofCInt (toCInt size) = 0 := by
              simpa using hwhole
            have hrest : taken.nodes = [{ rgStart := 0, rgEnd := 0 }] := by
              unfold takeRegion at htaken
              simp only [if_neg hlt] at htaken
              cases hstop : regions.free.stop with
              | wild => rw [hstop] at htaken; cases htaken
              | null => rw [hstop] at htaken; cases htaken; rfl
            have hnothing : AllocCase regions rgid size _ :=
              AllocCase.nothing before hnodes hbefore hzero taken.stop
            rw [hrest, hzero, ← hnodes]
            exact hnothing
          · exact absurd rfl hafter

theorem AllocCase.shaped (hcase : AllocCase regions rgid size next)
    (hshaped : Shaped regions.free.nodes) : Shaped next.free.nodes := by
  cases hcase with
  | growth hnone => exact hshaped
  | remainder before after fit hnodes hbefore hfits stop =>
      rw [hnodes] at hshaped
      rcases hshaped.split with ⟨-, rfl⟩ | ⟨-, -, -, hreplace⟩
      -- nothing is left over of the empty region
      · simp only at hfits
        bv_omega
      · exact hreplace _ hfits
  | whole before after fit hnodes hbefore hafter hfits stop =>
      rw [hnodes] at hshaped
      rcases hshaped.split with ⟨hnil, -⟩ | ⟨-, -, hremoved, -⟩
      · exact absurd hnil hafter
      · exact hremoved
  | nothing before hnodes hbefore hsize stop => exact hshaped

theorem firstFit_eq_some {before after : List VmRgStruct} {fit : VmRgStruct}
    (hnodes : regions.free.nodes = before ++ fit :: after)
    (hfits : fit.Fits (ofCInt (toCInt size)))
    (hbefore : ∀ rg ∈ before, ¬ rg.Fits (ofCInt (toCInt size))) :
    regions.firstFit size = some fit := by
  unfold firstFit
  rw [List.find?_eq_some_iff_append]
  refine ⟨decide_eq_true hfits, before, after, hnodes, fun rg hrg => ?_⟩
  simpa using hbefore rg hrg

/-- Where the size does not carry the start backwards there is nothing to clear. -/
theorem keepsApart_iff_clear {fit : VmRgStruct} (hfit : regions.firstFit size = some fit) :
    regions.KeepsApart rgid size ↔ regions.EveryOther rgid fun rg => ∀ addr, rg.Contains addr →
      ¬ (fit.rgStart + ofCInt (toCInt size) ≤ addr ∧ addr < fit.rgStart) := by
  unfold KeepsApart
  rw [hfit]
  refine ⟨fun hkeeps => ?_, Or.inr⟩
  rcases hkeeps with hforward | hclear
  · have hempty : ∀ addr, ¬ (fit.rgStart + ofCInt (toCInt size) ≤ addr ∧ addr < fit.rgStart) := by
      intro addr
      bv_omega
    exact ⟨fun _ _ addr _ => hempty addr, fun _ _ addr _ => hempty addr⟩
  · exact hclear

/-- Splitting a free region keeps the regions disjoint when the addresses that the rest
gains below the start belong to no other region. -/
theorem disjoint_remainder_iff {before after : List VmRgStruct} {fit : VmRgStruct}
    {taken : Addr} {stop : ListEnd} (hnodes : regions.free.nodes = before ++ fit :: after)
    (hdisjoint : regions.Disjoint) (hfit : fit.rgStart < fit.rgEnd) (htaken : taken < fit.rgEnd) :
    Disjoint
      { table := Function.update regions.table rgid { rgStart := fit.rgStart, rgEnd := taken }
        free :=
          { nodes := before ++ { rgStart := taken, rgEnd := fit.rgEnd } :: after, stop := stop } } ↔
      regions.EveryOther rgid fun rg => ∀ addr, rg.Contains addr →
        ¬ (taken ≤ addr ∧ addr < fit.rgStart) := by
  obtain ⟨hrest, hfitLive, hfitFree⟩ := hdisjoint.middle hnodes stop
  have hnew : ∀ addr, Contains { rgStart := fit.rgStart, rgEnd := taken } addr →
      fit.Contains addr := by
    rintro addr ⟨hstart, hend⟩
    simp only at hstart hend
    exact ⟨hstart, by bv_omega⟩
  -- when the size wraps, the rest starts below the region it was taken from
  have hsplit : ∀ addr, Contains { rgStart := taken, rgEnd := fit.rgEnd } addr →
      fit.Contains addr ∨ (taken ≤ addr ∧ addr < fit.rgStart) := by
    rintro addr ⟨hstart, hend⟩
    simp only at hstart hend
    by_cases hinside : fit.rgStart ≤ addr
    · exact Or.inl ⟨hinside, hend⟩
    · exact Or.inr ⟨hstart, BitVec.not_le.mp hinside⟩
  have hmem : ∀ node ∈ regions.free.nodes, node = fit ∨ node ∈ before ++ after := by
    intro node hnode
    rw [hnodes, List.mem_append, List.mem_cons] at hnode
    rw [List.mem_append]
    tauto
  rw [disjoint_middle_iff before stop]
  constructor
  · rintro ⟨-, hlive, hfree⟩
    have hbelow : ∀ addr, taken ≤ addr ∧ addr < fit.rgStart →
        Contains { rgStart := taken, rgEnd := fit.rgEnd } addr :=
      fun addr hrange => ⟨hrange.1, by simp only; bv_omega⟩
    refine ⟨fun other hother addr hcontains hrange => ?_,
      fun node hnode addr hcontains hrange => ?_⟩
    · have hapart := hlive other
      rw [Function.update_of_ne hother] at hapart
      exact hapart addr ⟨hbelow addr hrange, hcontains⟩
    · rcases hmem node hnode with rfl | hnode
      · exact BitVec.not_le.mpr hrange.2 hcontains.1
      · exact hfree node hnode addr ⟨hbelow addr hrange, hcontains⟩
  · rintro ⟨hclearLive, hclearFree⟩
    refine ⟨(hrest.update_iff rgid _).mpr ⟨fun other _ => (hfitLive other).mono hnew,
      fun node hnode => (hfitFree node hnode).mono hnew⟩, fun other => ?_, fun node hnode => ?_⟩
    · by_cases hother : other = rgid
      · subst hother
        rw [Function.update_self]
        rintro addr ⟨⟨hstart, -⟩, ⟨-, hend⟩⟩
        exact BitVec.not_le.mpr hend hstart
      · rw [Function.update_of_ne hother]
        rintro addr ⟨hrest, hcontains⟩
        rcases hsplit addr hrest with hinside | hrange
        · exact hfitLive other addr ⟨hinside, hcontains⟩
        · exact hclearLive other hother addr hcontains hrange
    · rintro addr ⟨hrest, hcontains⟩
      rcases hsplit addr hrest with hinside | hrange
      · exact hfitFree node hnode addr ⟨hinside, hcontains⟩
      · have hnode' : node ∈ regions.free.nodes := by
          rw [hnodes, List.mem_append, List.mem_cons]
          rw [List.mem_append] at hnode
          tauto
        exact hclearFree node hnode' addr hcontains hrange

/-- From disjoint regions, an allocation keeps them disjoint exactly under the condition. -/
theorem AllocCase.disjoint_iff (hcase : AllocCase regions rgid size next)
    (hshaped : Shaped regions.free.nodes) (hdisjoint : regions.Disjoint) :
    next.Disjoint ↔ regions.KeepsApart rgid size := by
  cases hcase with
  | growth hnone =>
      have hfit : regions.firstFit size = none := by
        unfold firstFit
        simpa using hnone
      rw [hdisjoint.update_iff]
      unfold KeepsApart EveryOther
      rw [hfit]
      simp only [apart_from_zero_iff]
  | remainder before after fit hnodes hbefore hfits stop =>
      have hnonempty : fit.rgStart < fit.rgEnd := by
        rw [hnodes] at hshaped
        rcases hshaped.split with ⟨-, rfl⟩ | ⟨-, hnonempty, -, -⟩
        · simp only at hfits
          bv_omega
        · exact hnonempty
      have hle : fit.Fits (ofCInt (toCInt size)) := BitVec.le_of_lt hfits
      rw [keepsApart_iff_clear (firstFit_eq_some hnodes hle hbefore)]
      exact disjoint_remainder_iff hnodes hdisjoint hnonempty hfits
  | whole before after fit hnodes hbefore hafter hfits stop =>
      have hnonempty : fit.rgStart < fit.rgEnd := by
        rw [hnodes] at hshaped
        rcases hshaped.split with ⟨hnil, -⟩ | ⟨-, hnonempty, -, -⟩
        · exact absurd hnil hafter
        · exact hnonempty
      have hle : fit.Fits (ofCInt (toCInt size)) := BitVec.le_of_eq hfits
      have hkeeps : regions.KeepsApart rgid size := by
        unfold KeepsApart
        rw [firstFit_eq_some hnodes hle hbefore]
        refine Or.inl ?_
        rw [hfits]
        exact BitVec.le_of_lt hnonempty
      refine iff_of_true ?_ hkeeps
      obtain ⟨hrest, hfitLive, hfitFree⟩ := hdisjoint.middle hnodes stop
      rw [hfits]
      exact (hrest.update_iff rgid fit).mpr ⟨fun other _ => hfitLive other, hfitFree⟩
  | nothing before hnodes hbefore hsize stop =>
      have hle := VmRgStruct.fits_cleared hsize
      have hkeeps : regions.KeepsApart rgid size := by
        unfold KeepsApart
        rw [firstFit_eq_some hnodes hle hbefore]
        refine Or.inl ?_
        rw [hsize]
        decide
      refine iff_of_true ?_ hkeeps
      have hzero := hdisjoint.clear rgid
      exact
        { live_live := hzero.live_live
          free_free := hzero.free_free
          live_free := hzero.live_free }

end Regions

end SimpleOs
