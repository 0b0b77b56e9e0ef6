import Mathlib.Logic.Function.Iterate
import SimpleOs.Memory.Paging

/-! # Physical memory devices

`mm-memphy.c`: RAM and swap devices with their storage and their list of free frames.
A failed call (`-1`) has no value. An access outside the storage is undefined.
-/

namespace SimpleOs

/-- `struct memphy_struct`. The list of free frames is `wild` at its end when the last
link of the list, or its head, was never written. -/
structure MemphyStruct where
  storage : List Byte
  maxsz : Int
  rdmflg : Bool
  cursor : Int
  freeFpList : Chain Addr
  deriving DecidableEq

namespace MemphyStruct

/-- `MEMPHY_mv_csr` -/
def mvCsr (mp : MemphyStruct) (offset : Addr) : MemphyStruct :=
  { mp with
    cursor := (fun cursor => (cursor + 1) % mp.maxsz)^[min offset.toNat mp.maxsz.toNat] 0 }

/-- `mp->storage[addr]` -/
def load (mp : MemphyStruct) (addr : Addr) : Except Fault Byte :=
  match mp.storage[addr.toNat]? with
  | none => .error .outOfBounds
  | some value => .ok value

/-- `mp->storage[addr] = value` -/
def store (mp : MemphyStruct) (addr : Addr) (value : Byte) : Except Fault MemphyStruct :=
  if addr.toNat < mp.storage.length then
    .ok { mp with storage := mp.storage.set addr.toNat value }
  else .error .outOfBounds

/-- `MEMPHY_seq_read` -/
def seqRead (mp : MemphyStruct) (addr : Addr) : Except Fault (Option Byte × MemphyStruct) :=
  if !mp.rdmflg then .ok (none, mp)
  else (mp.load addr).map fun value => (some value, mp.mvCsr addr)

/-- `MEMPHY_read` -/
def read (mp : MemphyStruct) (addr : Addr) : Except Fault (Option Byte × MemphyStruct) :=
  if mp.rdmflg then (mp.load addr).map fun value => (some value, mp) else mp.seqRead addr

/-- `MEMPHY_seq_write` -/
def seqWrite (mp : MemphyStruct) (addr : Addr) (value : Byte) :
    Except Fault (Int × MemphyStruct) :=
  if !mp.rdmflg then .ok (-1, mp)
  else ((mp.mvCsr addr).store addr value).map fun mp => (0, mp)

/-- `MEMPHY_write` -/
def write (mp : MemphyStruct) (addr : Addr) (data : Byte) : Except Fault (Int × MemphyStruct) :=
  if mp.rdmflg then (mp.store addr data).map fun mp => (0, mp) else mp.seqWrite addr data

/-- `MEMPHY_format`. A list of one frame ends in a link that was never written. -/
def format (mp : MemphyStruct) (pagesz : Int) (garbage : ListEnd) : MemphyStruct :=
  let numfp := (mp.maxsz.tdiv pagesz).toNat
  if numfp = 0 then mp
  else
    { mp with
      freeFpList :=
        { nodes := (List.range numfp).map (BitVec.ofNat 64)
          stop := if numfp = 1 then garbage else .null } }

/-- `MEMPHY_get_freefp` -/
def getFreefp (mp : MemphyStruct) : Except Fault (Option Addr × MemphyStruct) :=
  match mp.freeFpList.nodes with
  | [] => mp.freeFpList.stop.follow (none, mp)
  | fpn :: rest => .ok (some fpn, { mp with freeFpList := { mp.freeFpList with nodes := rest } })

/-- A request takes the first node, and finds none at the end of the list. -/
theorem getFreefp_eq_ok {mp after : MemphyStruct} {freefp : Option Addr}
    (hget : mp.getFreefp = .ok (freefp, after)) :
    freefp = mp.freeFpList.nodes.head? ∧ after = { mp with
      freeFpList := { mp.freeFpList with nodes := mp.freeFpList.nodes.tail } } := by
  obtain ⟨storage, maxsz, rdmflg, cursor, ⟨nodes, stop⟩⟩ := mp
  cases nodes with
  | cons fpn rest =>
      cases hget
      exact ⟨rfl, rfl⟩
  | nil =>
      cases stop with
      | wild => cases hget
      | null =>
          cases hget
          exact ⟨rfl, rfl⟩

/-- The ways that a request can go. -/
theorem getFreefp_cases (mp : MemphyStruct) :
    (mp.freeFpList = { nodes := [], stop := .null } ∧ mp.getFreefp = .ok (none, mp)) ∨
      (mp.freeFpList = { nodes := [], stop := .wild } ∧ mp.getFreefp = .error .wildDeref) ∨
      ∃ fpn rest, mp.freeFpList.nodes = fpn :: rest ∧ mp.getFreefp =
        .ok (some fpn, { mp with freeFpList := { mp.freeFpList with nodes := rest } }) := by
  obtain ⟨storage, maxsz, rdmflg, cursor, ⟨nodes, stop⟩⟩ := mp
  cases nodes with
  | cons fpn rest => exact Or.inr (Or.inr ⟨fpn, rest, rfl, rfl⟩)
  | nil =>
      cases stop with
      | null => exact Or.inl ⟨rfl, rfl⟩
      | wild => exact Or.inr (Or.inl ⟨rfl, rfl⟩)

/-- A failed request changes nothing. -/
theorem getFreefp_eq_none {mp after : MemphyStruct} (hget : mp.getFreefp = .ok (none, after)) :
    mp.freeFpList.nodes = [] ∧ after = mp := by
  obtain ⟨hfirst, hafter⟩ := getFreefp_eq_ok hget
  have hnil : mp.freeFpList.nodes = [] := List.head?_eq_none_iff.mp hfirst.symm
  refine ⟨hnil, ?_⟩
  rw [hafter, hnil]
  exact congrArg (fun list => { mp with freeFpList := list })
    (congrArg (fun nodes => { mp.freeFpList with nodes := nodes }) hnil.symm)

/-- `MEMPHY_put_freefp` -/
def putFreefp (mp : MemphyStruct) (fpn : Addr) : MemphyStruct :=
  { mp with freeFpList := { mp.freeFpList with nodes := fpn :: mp.freeFpList.nodes } }

end MemphyStruct

/-- `init_memphy` over the previous contents of the structure. -/
def initMemphy (mp : MemphyStruct) (maxSize : Addr) (randomflg : Int) (garbage : ListEnd) :
    MemphyStruct :=
  let mp := { mp with storage := List.replicate maxSize.toNat 0, maxsz := toCInt maxSize }
  let mp := mp.format pagingPagesz garbage
  let mp := { mp with rdmflg := randomflg != 0 }
  if !mp.rdmflg then { mp with cursor := 0 } else mp

/-- One cell of the copying loop of `__swap_cp_page`. When the read fails, the byte that
is written was never assigned. -/
def swapCpCell (junk : Byte) (srcfpn dstfpn : Addr) (devices : MemphyStruct × MemphyStruct)
    (cellidx : Nat) : Except Fault (MemphyStruct × MemphyStruct) := do
  let addrsrc := srcfpn * BitVec.ofNat 64 pagingPagesz + BitVec.ofNat 64 cellidx
  let addrdst := dstfpn * BitVec.ofNat 64 pagingPagesz + BitVec.ofNat 64 cellidx
  let (data, mpsrc) ← devices.1.read addrsrc
  let (_, mpdst) ← devices.2.write addrdst (data.getD junk)
  return (mpsrc, mpdst)

/-- `__swap_cp_page` between two different devices. -/
def swapCpPage (junk : Byte) (mpsrc : MemphyStruct) (srcfpn : Addr) (mpdst : MemphyStruct)
    (dstfpn : Addr) : Except Fault (MemphyStruct × MemphyStruct) :=
  (List.range pagingPagesz).foldlM (swapCpCell junk srcfpn dstfpn) (mpsrc, mpdst)

end SimpleOs
