import SimpleOs.Foundation.Runs
import SimpleOs.Kernel.Unmapped
import SimpleOs.Memory.Disjoint

/-! # Region disjointness over runs of one process

Runs of `__alloc` and `__free` on the first area refine runs of the region operations,
so the exact condition for one allocation becomes an exact condition for runs.
-/

namespace SimpleOs

open Regions

variable {Proc : Type}

/-- The calls of a process that allocates and frees symbol regions. -/
inductive RegionCall where
  | alloc (rgid : Fin pagingMaxSymtblSz) (size : Addr)
  | free (rgid : Fin pagingMaxSymtblSz)
  deriving DecidableEq

namespace RegionCall

def step (pidOf : Proc → Except Fault Word32) (junk : Byte) (pid : Word32) (krnl : Krnl Proc) :
    RegionCall → Option (Krnl Proc)
  | alloc rgid size =>
      (SimpleOs.alloc pidOf junk krnl pid 0 rgid.val size).toOption.map fun result => result.2.2
  | free rgid =>
      (SimpleOs.free krnl.mm rgid.val).toOption.map fun result => { krnl with mm := result.2 }

/-- The condition on one call, in the state before it. -/
def Keeps (krnl : Krnl Proc) : RegionCall → Prop
  | alloc rgid size => krnl.mm.regions.KeepsApart rgid size
  | free _ => True

/-- What the calls keep, disjoint or not. -/
structure Ready (krnl : Krnl Proc) : Prop where
  unmapped : krnl.mm.Unmapped
  shaped : Shaped krnl.mm.regions.free.nodes

variable {pidOf : Proc → Except Fault Word32} {junk : Byte} {pid : Word32}
  {krnl next : Krnl Proc} {call : RegionCall}

theorem ready_initMm (boot : Krnl Proc) (garbage : ListEnd) : Ready (boot.initMm garbage) where
  unmapped := MmStruct.unmapped_initMm garbage
  shaped := ⟨[], rfl, fun _ hmem => by cases hmem⟩

theorem disjoint_initMm (boot : Krnl Proc) (garbage : ListEnd) :
    (boot.initMm garbage).mm.regions.Disjoint where
  live_live _ _ _ := VmRgStruct.apart_of_empty (BitVec.le_refl _) _
  free_free := List.pairwise_singleton _ _
  live_free _ _ _ := VmRgStruct.apart_of_empty (BitVec.le_refl _) _

theorem Ready.alloc_step {rgid : Fin pagingMaxSymtblSz} {size : Addr} (hready : Ready krnl)
    (hstep : step pidOf junk pid krnl (alloc rgid size) = some next) :
    next.mm.Unmapped ∧ AllocCase krnl.mm.regions rgid size next.mm.regions := by
  obtain ⟨⟨status, addr, after⟩, halloc, rfl⟩ := Option.map_eq_some_iff.mp hstep
  obtain ⟨index, hindex, -, hunmapped, hregions⟩ :=
    alloc_spec hready.unmapped (Runs.toOption_eq_some_iff.mp halloc)
  obtain rfl : rgid = index := Fin.ext (Int.natCast_inj.mp hindex)
  exact ⟨hunmapped, alloc_cases hready.shaped hregions⟩

theorem Ready.free_step {rgid : Fin pagingMaxSymtblSz} (hready : Ready krnl)
    (hstep : step pidOf junk pid krnl (free rgid) = some next) :
    next.mm.Unmapped ∧ next.mm.regions = krnl.mm.regions.release rgid := by
  obtain ⟨⟨status, after⟩, hfree, rfl⟩ := Option.map_eq_some_iff.mp hstep
  obtain ⟨found, released, hreleased, hunmapped, hregions⟩ := free_spec hready.unmapped rgid
  have hsame := hreleased.symm.trans (Runs.toOption_eq_some_iff.mp hfree)
  cases hsame
  exact ⟨hunmapped, hregions⟩

theorem Ready.step (hready : Ready krnl)
    (hstep : step pidOf junk pid krnl call = some next) : Ready next := by
  cases call with
  | alloc rgid size =>
      obtain ⟨hunmapped, hcase⟩ := hready.alloc_step hstep
      exact { unmapped := hunmapped, shaped := hcase.shaped hready.shaped }
  | free rgid =>
      obtain ⟨hunmapped, hregions⟩ := hready.free_step hstep
      refine { unmapped := hunmapped, shaped := ?_ }
      rw [hregions]
      exact hready.shaped.release rgid

theorem Ready.disjoint_iff (hready : Ready krnl) (hdisjoint : krnl.mm.regions.Disjoint)
    (hstep : RegionCall.step pidOf junk pid krnl call = some next) :
    next.mm.regions.Disjoint ↔ call.Keeps krnl := by
  cases call with
  | alloc rgid size =>
      exact (hready.alloc_step hstep).2.disjoint_iff hready.shaped hdisjoint
  | free rgid =>
      rw [(hready.free_step hstep).2]
      exact iff_of_true (hdisjoint.release rgid) trivial

/-- The regions are disjoint in every state of a run exactly when every call of the run
meets the condition. -/
theorem disjoint_iff_keeps (pidOf : Proc → Except Fault Word32) (junk : Byte) (pid : Word32)
    (boot : Krnl Proc) (garbage : ListEnd) (calls : List RegionCall) :
    (∀ krnl ∈ Runs.visited (step pidOf junk pid) (boot.initMm garbage) calls,
        krnl.mm.regions.Disjoint) ↔
      ∀ move ∈ Runs.taken (step pidOf junk pid) (boot.initMm garbage) calls,
        move.2.Keeps move.1 :=
  Runs.visited_iff_taken Ready (fun krnl => krnl.mm.regions.Disjoint) (fun _ => True)
    (fun krnl call => Keeps krnl call) (fun _ _ _ _ hready hstep => hready.step hstep)
    (fun _ _ _ _ hready hdisjoint hstep => hready.disjoint_iff hdisjoint hstep)
    (fun _ _ => trivial) (ready_initMm boot garbage) (disjoint_initMm boot garbage)

/-- Two allocations without a free between them both start at address 0. -/
theorem not_disjoint_two_allocations :
    ∃ krnl, Runs.run (step (fun _ => .ok 1) 0 1) (singleProcess.initMm .null)
        [alloc 0 100, alloc 1 50] = some krnl ∧ ¬ krnl.mm.regions.Disjoint := by
  have hregions : (Runs.run (step (fun _ => .ok 1) 0 1) (singleProcess.initMm .null)
      [alloc 0 100, alloc 1 50]).map (fun krnl => (krnl.mm.symrgtbl 0, krnl.mm.symrgtbl 1)) =
        some ({ rgStart := 0, rgEnd := 100 }, { rgStart := 0, rgEnd := 50 }) := by
    decide +kernel
  obtain ⟨krnl, hrun, htable⟩ := Option.map_eq_some_iff.mp hregions
  obtain ⟨hfirst, hsecond⟩ := Prod.mk.inj htable
  refine ⟨krnl, hrun, fun hdisjoint => ?_⟩
  have hapart : (krnl.mm.symrgtbl 0).Apart (krnl.mm.symrgtbl 1) :=
    hdisjoint.live_live 0 1 (by decide)
  rw [hfirst, hsecond] at hapart
  exact hapart 0 ⟨⟨by decide, by decide⟩, ⟨by decide, by decide⟩⟩

end RegionCall

end SimpleOs
