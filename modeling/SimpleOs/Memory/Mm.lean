import SimpleOs.Foundation.Radix
import SimpleOs.Memory.Paging

/-! # The memory descriptor of a process

`struct mm_struct` with its list of memory areas, its table of symbol regions and its
page directories. Of the five directory pointers only `pgd` is walked; the tables below
it are allocated as the walk reaches them.
-/

namespace SimpleOs

/-- `PAGING_MAX_SYMTBL_SZ` -/
def pagingMaxSymtblSz : Nat := 30

instance : NeZero pagingMaxSymtblSz := ⟨by decide⟩

/-- `struct vm_rg_struct`, without its link. -/
structure VmRgStruct where
  rgStart : Addr
  rgEnd : Addr
  deriving DecidableEq, Repr

/-- `struct vm_area_struct`, without its links. -/
structure VmAreaStruct where
  vmId : Addr
  vmStart : Addr
  vmEnd : Addr
  sbrk : Addr
  vmFreergList : Chain VmRgStruct
  deriving DecidableEq, Repr

/-- An index into a table of `PAGING64_MAX_PGN` entries. -/
abbrev TableIndex : Type := { index : Addr // index.toNat < paging64MaxPgn }

/-- The page global directory and the four levels of tables below it. -/
abbrev PageDirectory : Type := Radix.Table TableIndex Addr 4

/-- `struct mm_struct`, with `none` for a `NULL` directory. The list of areas is empty
for a `NULL` `mmap`. -/
structure MmStruct where
  pgd : Option PageDirectory
  p4d : Option (TableIndex → Addr)
  pud : Option (TableIndex → Addr)
  pmd : Option (TableIndex → Addr)
  pt : Option (TableIndex → Addr)
  mmap : List VmAreaStruct
  symrgtbl : Fin pagingMaxSymtblSz → VmRgStruct
  fifoPgn : List Addr

/-- `init_vm_rg`, without the link. -/
def initVmRg (rgStart rgEnd : Addr) : VmRgStruct where
  rgStart := rgStart
  rgEnd := rgEnd

/-- `enlist_vm_rg_node` -/
def enlistVmRgNode (rglist : Chain VmRgStruct) (rgnode : VmRgStruct) : Chain VmRgStruct :=
  { rglist with nodes := rgnode :: rglist.nodes }

/-- `init_mm`. The list head of a newly allocated area is linked behind the first region
although it was never written, so `garbage` ends the list. -/
def initMm (garbage : ListEnd) : MmStruct where
  pgd := some (Radix.fresh 0 4)
  p4d := some fun _ => 0
  pud := some fun _ => 0
  pmd := some fun _ => 0
  pt := none
  mmap :=
    [{ vmId := 0
       vmStart := 0
       vmEnd := 0
       sbrk := 0
       vmFreergList := enlistVmRgNode { nodes := [], stop := garbage } (initVmRg 0 0) }]
  symrgtbl _ := { rgStart := 0, rgEnd := 0 }
  fifoPgn := []

namespace MmStruct

/-- The loop of `get_vma_by_num`, at the area with the given position. Past the last
area it reads the `vm_id` of a `NULL` pointer. -/
def findVma (vmaid : Int) (position : Nat) (pvma : VmAreaStruct) :
    List VmAreaStruct → Except Fault Nat
  | [] => if toCInt pvma.vmId < vmaid then .error .nullDeref else .ok position
  | next :: rest =>
      if toCInt pvma.vmId < vmaid then findVma vmaid (position + 1) next rest else .ok position

/-- `get_vma_by_num`: the position of the area in the list, `none` for `NULL`. -/
def getVmaByNum (mm : MmStruct) (vmaid : Int) : Except Fault (Option Nat) :=
  match mm.mmap with
  | [] => .ok none
  | pvma :: rest => (findVma vmaid 0 pvma rest).map some

/-- The area behind a pointer that `get_vma_by_num` returned. -/
def vmaAt (mm : MmStruct) (position : Option Nat) : Except Fault VmAreaStruct :=
  match position.bind fun index => mm.mmap[index]? with
  | none => .error .nullDeref
  | some vma => .ok vma

/-- Write through such a pointer. -/
def setVmaAt (mm : MmStruct) (position : Option Nat) (vma : VmAreaStruct) : MmStruct :=
  match position with
  | none => mm
  | some index => { mm with mmap := mm.mmap.set index vma }

/-- Writing back the area that was read changes nothing. -/
theorem setVmaAt_vmaAt {mm : MmStruct} {position : Option Nat} {vma : VmAreaStruct}
    (hvma : mm.vmaAt position = .ok vma) : mm.setVmaAt position vma = mm := by
  cases position with
  | none => rfl
  | some index =>
      unfold vmaAt at hvma
      cases hindex : mm.mmap[index]? with
      | none => simp [hindex] at hvma
      | some found =>
          simp only [Option.bind_some, hindex, Except.ok.injEq] at hvma
          subst hvma
          obtain ⟨hlt, hfound⟩ := List.getElem?_eq_some_iff.mp hindex
          simp only [setVmaAt, ← hfound, List.set_getElem_self]

end MmStruct

end SimpleOs
