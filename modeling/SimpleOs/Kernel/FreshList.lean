import SimpleOs.Foundation.Runs
import SimpleOs.Kernel.AllocSize
import SimpleOs.Kernel.AreaRuns

/-! # The free list of a fresh descriptor

`init_mm` links its first region in front of a list head that it never wrote. The nodes of
the free list are then those of `init_mm` and of `__free`, but behind them stands whatever
the allocated memory held. No call writes that link, so a search that reaches the end of the
list follows it, in every run from the first call on, unless it happened to be `NULL`.
-/

namespace SimpleOs

variable {Proc : Type}

namespace MmStruct

/-- The free list of the first area is the empty region and ends in `NULL`. -/
def FreshFreeList (mm : MmStruct) : Prop :=
  ∃ vma rest, mm.mmap = vma :: rest ∧
    vma.vmFreergList = { nodes := [initVmRg 0 0], stop := .null }

/-- Every search of a free list, for any size, ends at a node or at a `NULL` link. -/
def SearchesEnd (mm : MmStruct) : Prop :=
  ∀ vma ∈ mm.mmap, ∀ size : Addr, ∃ found,
    searchRegion size vma.vmFreergList.stop vma.vmFreergList.nodes = .ok found

/-- The free list of the single area ends in `NULL` and has at most that many nodes. -/
def EndsWithin (mm : MmStruct) (count : Nat) : Prop :=
  ∃ vma, mm.mmap = [vma] ∧ vma.vmFreergList.stop = .null ∧
    vma.vmFreergList.nodes.length ≤ count

end MmStruct

/-! ## One search -/

theorem takeRegion_of_null (size : Addr) (rgit : VmRgStruct) (rest : List VmRgStruct) :
    ∃ list, takeRegion size .null rgit rest = .ok list ∧ list.stop = .null ∧
      list.nodes.length ≤ rest.length + 1 := by
  cases rest with
  | nil =>
      by_cases hleft : rgit.rgStart + size < rgit.rgEnd
      · refine ⟨_, if_pos hleft, rfl, Nat.le_refl _⟩
      · refine ⟨_, if_neg hleft, rfl, Nat.le_refl _⟩
  | cons nextrg rest =>
      by_cases hleft : rgit.rgStart + size < rgit.rgEnd
      · refine ⟨_, if_pos hleft, rfl, Nat.le_refl _⟩
      · refine ⟨_, if_neg hleft, rfl, ?_⟩
        simp only [List.length_cons]
        omega

/-- In a list that ends in `NULL` a search completes, and adds no node. -/
theorem searchRegion_of_null (size : Addr) (nodes : List VmRgStruct) :
    ∃ newrg list, searchRegion size .null nodes = .ok (newrg, list) ∧ list.stop = .null ∧
      list.nodes.length ≤ nodes.length := by
  induction nodes with
  | nil => exact ⟨none, { nodes := [], stop := .null }, rfl, rfl, Nat.le_refl _⟩
  | cons rgit rest ih =>
      unfold searchRegion
      by_cases hfits : rgit.Fits size
      · obtain ⟨list, htake, hstop, hlength⟩ := takeRegion_of_null size rgit rest
        rw [if_pos hfits, htake]
        exact ⟨_, list, rfl, hstop, hlength⟩
      · obtain ⟨newrg, list, hsearch, hstop, hlength⟩ := ih
        rw [if_neg hfits, hsearch]
        exact ⟨newrg, enlistVmRgNode list rgit, rfl, hstop, Nat.succ_le_succ hlength⟩

namespace MmStruct

variable {mm next : MmStruct} {vma : VmAreaStruct} {count : Nat}

theorem EndsWithin.searchesEnd (hends : mm.EndsWithin count) : mm.SearchesEnd := by
  obtain ⟨only, hmmap, hstop, -⟩ := hends
  intro vma hvma size
  rw [hmmap] at hvma
  obtain rfl := List.mem_singleton.mp hvma
  obtain ⟨newrg, list, hsearch, -⟩ := searchRegion_of_null size vma.vmFreergList.nodes
  rw [hstop]
  exact ⟨_, hsearch⟩

/-- A lookup that completes finds the single area. -/
theorem getVmaByNum_eq_of_single (hmmap : mm.mmap = [vma]) {vmaid : Int} {curVma : Option Nat}
    (hlookup : mm.getVmaByNum vmaid = .ok curVma) : curVma = some 0 := by
  unfold getVmaByNum at hlookup
  rw [hmmap] at hlookup
  obtain ⟨position, hfind, rfl⟩ := map_eq_ok.mp hlookup
  unfold findVma at hfind
  split at hfind
  next => cases hfind
  next => rw [Except.ok.inj hfind]

/-- Writing an area leaves the single area with its free list, or with one that ends within
the same bound. -/
theorem EndsWithin.getFreeVmrgArea (hends : mm.EndsWithin count) {vmaid size : Int}
    {found : Option VmRgStruct} (hsearch : mm.getFreeVmrgArea vmaid size = .ok (found, next)) :
    next.EndsWithin count := by
  obtain ⟨vma, hmmap, hstop, hlength⟩ := hends
  unfold MmStruct.getFreeVmrgArea at hsearch
  obtain ⟨curVma, hlookup, hsearch⟩ := bind_eq_ok.mp hsearch
  obtain rfl := getVmaByNum_eq_of_single hmmap hlookup
  rw [vmaAt_of_single hmmap, ok_bind, hstop] at hsearch
  obtain ⟨newrg, list, hregion, hlist, hcount⟩ :=
    searchRegion_of_null (ofCInt size) vma.vmFreergList.nodes
  rw [hregion, ok_bind] at hsearch
  simp only [setVmaAt_of_single hmmap] at hsearch
  cases hsearch
  exact ⟨_, rfl, hlist, Nat.le_trans hcount hlength⟩

/-- Growing an area moves its end and leaves its free list. -/
theorem EndsWithin.incVmaLimit (hends : mm.EndsWithin count) {vmaid status : Int} {incSz : Addr}
    (hgrow : mm.incVmaLimit vmaid incSz = .ok (status, next)) : next.EndsWithin count := by
  obtain ⟨curVma, found, hlookup, hvma, rfl | rfl⟩ := incVmaLimit_cases hgrow
  · exact hends
  · obtain ⟨vma, hmmap, hstop, hlength⟩ := hends
    obtain rfl := getVmaByNum_eq_of_single hmmap hlookup
    obtain rfl := Except.ok.inj ((vmaAt_of_single hmmap).symm.trans hvma)
    rw [setVmaAt_of_single hmmap]
    exact ⟨_, rfl, hstop, hlength⟩

theorem EndsWithin.setSymrg (hends : mm.EndsWithin count) {rgid : Int} {rg : VmRgStruct}
    (hset : mm.setSymrg rgid rg = .ok next) : next.EndsWithin count := by
  unfold MmStruct.setSymrg at hset
  split at hset
  next =>
    cases hset
    exact hends
  next => cases hset

/-- A freed region is one node more. -/
theorem EndsWithin.free (hends : mm.EndsWithin count) {rgid status : Int}
    (hfree : SimpleOs.free mm rgid = .ok (status, next)) : next.EndsWithin (count + 1) := by
  have hmore : ∀ {other : MmStruct}, other.EndsWithin count → other.EndsWithin (count + 1) :=
    fun ⟨vma, hmmap, hstop, hlength⟩ => ⟨vma, hmmap, hstop, Nat.le_succ_of_le hlength⟩
  cases free_ends hfree with
  | refused => exact hmore hends
  | freed hread hclear hlist =>
      obtain ⟨vma, hmmap, hstop, hlength⟩ := hends.setSymrg hclear
      unfold enlistVmFreergList at hlist
      simp only [hmmap] at hlist
      split at hlist
      next =>
        cases hlist
        exact hmore ⟨vma, hmmap, hstop, hlength⟩
      next =>
        cases hlist
        exact ⟨_, rfl, hstop, Nat.succ_le_succ hlength⟩

end MmStruct

/-! ## Runs of calls -/

variable {pidOf : Proc → Except Fault Word32} {junk : Byte} {pid : Word32}
  {krnl next : Krnl Proc} {count : Nat}

/-- The growth that `__alloc` asks for leaves the free list. -/
theorem syscall_grow_endsWithin {regs final : ScRegs} {status : Int}
    (hends : krnl.mm.EndsWithin count) (hop : regs.a1 = sysmemIncOp)
    (hcall : syscall pidOf junk krnl pid 17 regs = .ok (status, next, final)) :
    next.mm.EndsWithin count := by
  rcases syscall_grow_cases hop hcall with hsame | ⟨limit, hgrow⟩
  · rw [hsame]
    exact hends
  · exact hends.incVmaLimit hgrow

/-- An allocation, for any area and register, adds no node. -/
theorem alloc_endsWithin {vmaid rgid status : Int} {size : Addr} {addr : Option Addr}
    (hends : krnl.mm.EndsWithin count)
    (halloc : alloc pidOf junk krnl pid vmaid rgid size = .ok (status, addr, next)) :
    next.mm.EndsWithin count := by
  obtain ⟨found, mm, hsearch, hafter⟩ := alloc_ends halloc
  have hsearched := hends.getFreeVmrgArea hsearch
  cases hafter with
  | taken hset => exact hsearched.setSymrg hset
  | noArea hlookup => exact hsearched
  | grown hlookup hvma hregs hcall hset =>
      have hop := congrArg ScRegs.a1 hregs
      exact (syscall_grow_endsWithin hsearched hop hcall).setSymrg hset

/-- A call of `__alloc` or `__free`, for any area and register. -/
inductive HeapCall where
  | alloc (vmaid rgid : Int) (size : Addr)
  | free (rgid : Int)
  deriving DecidableEq

namespace HeapCall

def step (pidOf : Proc → Except Fault Word32) (junk : Byte) (pid : Word32) (krnl : Krnl Proc) :
    HeapCall → Option (Krnl Proc)
  | alloc vmaid rgid size =>
      (SimpleOs.alloc pidOf junk krnl pid vmaid rgid size).toOption.map fun result => result.2.2
  | free rgid =>
      (SimpleOs.free krnl.mm rgid).toOption.map fun result => { krnl with mm := result.2 }

def isFree : HeapCall → Bool
  | alloc .. => false
  | free _ => true

theorem step_endsWithin {call : HeapCall} (hends : krnl.mm.EndsWithin count)
    (hstep : step pidOf junk pid krnl call = some next) :
    next.mm.EndsWithin (count + [call].countP isFree) := by
  cases call with
  | alloc vmaid rgid size =>
      obtain ⟨⟨status, addr, after⟩, halloc, rfl⟩ := Option.map_eq_some_iff.mp hstep
      exact alloc_endsWithin hends (Runs.toOption_eq_some_iff.mp halloc)
  | free rgid =>
      obtain ⟨⟨status, after⟩, hfree, rfl⟩ := Option.map_eq_some_iff.mp hstep
      exact hends.free (Runs.toOption_eq_some_iff.mp hfree)

/-- Over a run the list has at most one node more for each `__free`. -/
theorem run_endsWithin {calls : List HeapCall} (hends : krnl.mm.EndsWithin count)
    (hrun : Runs.run (step pidOf junk pid) krnl calls = some next) :
    next.mm.EndsWithin (count + calls.countP isFree) := by
  induction calls generalizing krnl count with
  | nil =>
      rw [Runs.run_nil, Option.some.injEq] at hrun
      subst hrun
      exact hends
  | cons call rest ih =>
      rw [Runs.run_cons] at hrun
      obtain ⟨middle, hstep, hrest⟩ := Option.bind_eq_some_iff.mp hrun
      have hfinal := ih (step_endsWithin hends hstep) hrest
      rw [Nat.add_assoc, ← List.countP_append] at hfinal
      exact hfinal

/-- The free list of a fresh descriptor is the empty region and ends in `NULL`, and in every
run every search ends within the nodes of `init_mm` and of `__free`. -/
def ListIsSound (pidOf : Proc → Except Fault Word32) (junk : Byte) (pid : Word32)
    (boot : Krnl Proc) (garbage : ListEnd) : Prop :=
  (initMm garbage).FreshFreeList ∧
    ∀ calls krnl, Runs.run (step pidOf junk pid) (boot.initMm garbage) calls = some krnl →
      krnl.mm.SearchesEnd ∧ krnl.mm.EndsWithin (1 + calls.countP isFree)

/-- The free list is sound exactly when the memory of the first area happened to hold `NULL`
where its list head lies. -/
theorem listIsSound_iff (pidOf : Proc → Except Fault Word32) (junk : Byte) (pid : Word32)
    (boot : Krnl Proc) (garbage : ListEnd) :
    ListIsSound pidOf junk pid boot garbage ↔ garbage = .null := by
  constructor
  · rintro ⟨⟨vma, rest, hmmap, hlist⟩, -⟩
    obtain ⟨rfl, -⟩ := List.cons.inj hmmap
    exact congrArg Chain.stop hlist
  · rintro rfl
    refine ⟨⟨_, [], rfl, rfl⟩, ?_⟩
    intro calls krnl hrun
    have hfresh : (boot.initMm .null).mm.EndsWithin 1 := ⟨_, rfl, rfl, Nat.le_refl _⟩
    have hends := run_endsWithin hfresh hrun
    exact ⟨hends.searchesEnd, hends⟩

/-- With other contents the first search, whatever its size, follows the link. -/
theorem not_listIsSound_wild :
    (∀ size, (initMm .wild).getFreeVmrgArea 0 size = .error .wildDeref) ∧
      ¬ ListIsSound (fun _ => .ok 1) 0 1 singleProcess .wild := by
  refine ⟨fun size => ?_, ?_⟩
  · have hempty : ¬ (initVmRg 0 0).rgStart + ofCInt size < (initVmRg 0 0).rgEnd :=
      BitVec.not_lt_zero
    rw [MmStruct.getFreeVmrgArea_of_single rfl rfl]
    simp only [enlistVmRgNode, searchRegion]
    by_cases hfits : (initVmRg 0 0).Fits (ofCInt size)
    · rw [if_pos hfits]
      unfold takeRegion
      rw [if_neg hempty]
      rfl
    · rw [if_neg hfits]
      rfl
  · rintro ⟨⟨vma, rest, hmmap, hlist⟩, -⟩
    obtain ⟨rfl, -⟩ := List.cons.inj hmmap
    cases hlist

end HeapCall

end SimpleOs
