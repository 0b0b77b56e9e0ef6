import SimpleOs.Kernel.SysMem
import SimpleOs.Memory.Entry
import SimpleOs.Memory.SwapCopy

/-! # Page faults

`pgread` and `pgwrite` of `mm-vm.c` reach memory through the registers of a process. A page
that is not present but swapped is copied back from its slot into a free frame or, when
there is none, into the frame of the first listed page, which is swapped out for it. Only
`pgwrite` then tells the page table.
-/

namespace SimpleOs

variable {Proc : Type}

/-- The number of entries of `regs` in `struct pcb_t`. -/
def numRegs : Nat := 10

instance : NeZero numRegs := ⟨by decide⟩

/-- The fields of `struct pcb_t` that `pgread` and `pgwrite` use. -/
structure PagingProc (Proc : Type) where
  regs : Fin numRegs → Addr
  krnl : Krnl Proc

/-- The local variables that stay unassigned when a call fails: `data` in `__swap_cp_page`
and in `pgread`, and `tgtfpn_swp`. -/
structure Junk where
  copied : Byte
  data : Byte
  tgtfpnSwp : Word32

namespace PagingProc

/-- `proc->regs[index]` -/
def reg (proc : PagingProc Proc) (index : Word32) : Except Fault Addr :=
  if h : index.toNat < numRegs then .ok (proc.regs ⟨index.toNat, h⟩) else .error .outOfBounds

/-- `proc->regs[index] = value` -/
def setReg (proc : PagingProc Proc) (index : Word32) (value : Addr) :
    Except Fault (PagingProc Proc) :=
  if h : index.toNat < numRegs then
    .ok { proc with regs := Function.update proc.regs ⟨index.toNat, h⟩ value }
  else .error .outOfBounds

end PagingProc

/-- `__mm_swap_page` -/
def mmSwapPage (junk : Byte) (krnl : Krnl Proc) (vicfpn swpfpn : Addr) :
    Except Fault (Krnl Proc) := do
  let (mram, activeMswp) ← swapCpPage junk krnl.mram vicfpn krnl.activeMswp swpfpn
  return { krnl with mram := mram, activeMswp := activeMswp }

/-- The slot `tgtfpn_swp` for a page that is swapped out. Whether there was a free one is not
asked. Both callers keep numbers from a free list in an `int`. -/
def targetSlot (junk : Junk) (freefp : Option Addr) : Addr :=
  ((freefp.map (BitVec.setWidth 32)).getD junk.tgtfpnSwp).signExtend 64

/-- The first listed page is swapped out. Its frame is that of the page to bring in. -/
def swapOutFirst (junk : Junk) (krnl : Krnl Proc) : Except Fault (Addr × Krnl Proc) :=
  match krnl.mm.fifoPgn with
  | [] => .error .nullDeref
  | vicpgn :: _ => do
      let (vicpte, mm) := krnl.mm.pteGetEntry vicpgn
      let vicPhyFpn := (pagingFpn vicpte).signExtend 64
      let (freefp, activeMswp) ← krnl.activeMswp.getFreefp
      let tgtfpnSwp := targetSlot junk freefp
      let krnl ← mmSwapPage junk.copied { krnl with mm := mm, activeMswp := activeMswp }
        vicPhyFpn tgtfpnSwp
      let mm ← krnl.mm.pteSetSwap vicpgn 0 tgtfpnSwp
      return (vicPhyFpn, { krnl with mm := mm })

/-- The frame `vicfpn` for the page that `pgread` or `pgwrite` brings in. -/
def victimFrame (junk : Junk) (krnl : Krnl Proc) : Except Fault (Addr × Krnl Proc) := do
  let (freefp, mram) ← krnl.mram.getFreefp
  let krnl := { krnl with mram := mram }
  match freefp with
  | some vicfpn => return ((vicfpn.setWidth 32).signExtend 64, krnl)
  | none => swapOutFirst junk krnl

/-- `__swap_cp_page` from the swap device into RAM. -/
def swapBack (junk : Byte) (krnl : Krnl Proc) (swpfpn vicfpn : Addr) :
    Except Fault (Krnl Proc) := do
  let (activeMswp, mram) ← swapCpPage junk krnl.activeMswp swpfpn krnl.mram vicfpn
  return { krnl with mram := mram, activeMswp := activeMswp }

/-- `enlist_pgn_node` on the list of the process. -/
def enlistPgn (krnl : Krnl Proc) (pgn : Addr) : Krnl Proc :=
  { krnl with mm := { krnl.mm with fifoPgn := pgn :: krnl.mm.fifoPgn } }

/-- The physical address that `pgread` and `pgwrite` form. -/
def phyadr (pte : Word32) (off : Addr) : Addr :=
  (pagingFpn pte).setWidth 64 * BitVec.ofNat 64 pagingPagesz + off

/-- The end of `pgread`, from the second look at the entry. -/
def pgreadByte (junk : Junk) (proc : PagingProc Proc) (pgn off : Addr) (destination : Word32) :
    Except Fault (Int × PagingProc Proc) := do
  let (pte, mm) := proc.krnl.mm.pteGetEntry pgn
  let (data, mram) ← proc.krnl.mram.read (phyadr pte off)
  let proc := { proc with krnl := { proc.krnl with mm := mm, mram := mram } }
  let proc ← proc.setReg destination ((data.getD junk.data).signExtend 64)
  return (0, proc)

/-- `pgread` -/
def pgread (junk : Junk) (proc : PagingProc Proc) (source : Word32) (offset : Addr)
    (destination : Word32) : Except Fault (Int × PagingProc Proc) := do
  let base ← proc.reg source
  let vadr := base + offset
  let pgn := pagingPgn vadr
  let off := pagingOffst vadr
  let (pte, mm) := proc.krnl.mm.pteGetEntry pgn
  let krnl := { proc.krnl with mm := mm }
  if pagingPagePresent pte then
    pgreadByte junk { proc with krnl := krnl } pgn off destination
  else if pteSwapped pte then
    let swpfpn := (pagingSwp pte).setWidth 64
    let (vicfpn, krnl) ← victimFrame junk krnl
    let krnl ← swapBack junk.copied krnl swpfpn vicfpn
    pgreadByte junk { proc with krnl := enlistPgn krnl pgn } pgn off destination
  else return (-1, { proc with krnl := krnl })

/-- The end of `pgwrite`. -/
def pgwriteByte (proc : PagingProc Proc) (data : Byte) (pgn off : Addr) :
    Except Fault (Int × PagingProc Proc) := do
  let (pte, mm) := proc.krnl.mm.pteGetEntry pgn
  let (_, mram) ← proc.krnl.mram.write (phyadr pte off) data
  return (0, { proc with krnl := { proc.krnl with mm := mm, mram := mram } })

/-- `pgwrite` -/
def pgwrite (junk : Junk) (proc : PagingProc Proc) (data : Byte) (destination : Word32)
    (offset : Addr) : Except Fault (Int × PagingProc Proc) := do
  let base ← proc.reg destination
  let vadr := base + offset
  let pgn := pagingPgn vadr
  let off := pagingOffst vadr
  let (pte, mm) := proc.krnl.mm.pteGetEntry pgn
  let krnl := { proc.krnl with mm := mm }
  if pagingPagePresent pte then pgwriteByte { proc with krnl := krnl } data pgn off
  else if pteSwapped pte then
    let swpfpn := (pagingSwp pte).signExtend 64
    let (vicfpn, krnl) ← victimFrame junk krnl
    let krnl ← swapBack junk.copied krnl swpfpn vicfpn
    let mm ← krnl.mm.pteSetFpn pgn vicfpn
    pgwriteByte { proc with krnl := enlistPgn { krnl with mm := mm } pgn } data pgn off
  else return (-1, { proc with krnl := krnl })

/-! ## Registers -/

theorem reg_of_lt {proc : PagingProc Proc} {index : Word32} (hindex : index.toNat < numRegs) :
    proc.reg index = .ok (proc.regs ⟨index.toNat, hindex⟩) :=
  dif_pos hindex

theorem setReg_eq_ok {proc next : PagingProc Proc} {index : Word32} {value : Addr}
    (hset : proc.setReg index value = .ok next) :
    next.krnl = proc.krnl ∧ next.reg index = .ok value ∧
      ∀ other, other.val ≠ index.toNat → next.regs other = proc.regs other := by
  unfold PagingProc.setReg at hset
  split at hset
  next hindex =>
    obtain rfl := Except.ok.inj hset
    refine ⟨rfl, ?_, fun other hother => ?_⟩
    · rw [reg_of_lt hindex]
      exact congrArg Except.ok (Function.update_self ..)
    · exact Function.update_of_ne (fun heq => hother (congrArg Fin.val heq)) ..
  next => cases hset

theorem exists_setReg (proc : PagingProc Proc) {index : Word32} (hindex : index.toNat < numRegs)
    (value : Addr) : ∃ next, proc.setReg index value = .ok next := by
  unfold PagingProc.setReg
  rw [dif_pos hindex]
  exact ⟨_, rfl⟩

/-! ## The calls -/

section Calls

variable {proc : PagingProc Proc} {base offset : Addr} {mm : MmStruct} {pte : Word32}

/-- A call that completes has read its register. -/
theorem reg_of_pgread {junk : Junk} {source destination : Word32} {outcome : Int × PagingProc Proc}
    (hread : pgread junk proc source offset destination = .ok outcome) :
    ∃ base, proc.reg source = .ok base := by
  obtain ⟨base, hbase, -⟩ := bind_eq_ok.mp hread
  exact ⟨base, hbase⟩

/-- What is left after the entry was read. -/
theorem pgread_eq (junk : Junk) {source : Word32} (destination : Word32)
    (hbase : proc.reg source = .ok base)
    (hentry : proc.krnl.mm.pteGetEntry (pagingPgn (base + offset)) = (pte, mm)) :
    pgread junk proc source offset destination =
      if pagingPagePresent pte then
        pgreadByte junk { proc with krnl := { proc.krnl with mm := mm } }
          (pagingPgn (base + offset)) (pagingOffst (base + offset)) destination
      else if pteSwapped pte then
        victimFrame junk { proc.krnl with mm := mm } >>= fun (vicfpn, krnl) =>
          swapBack junk.copied krnl ((pagingSwp pte).setWidth 64) vicfpn >>= fun krnl =>
            pgreadByte junk { proc with krnl := enlistPgn krnl (pagingPgn (base + offset)) }
              (pagingPgn (base + offset)) (pagingOffst (base + offset)) destination
      else .ok (-1, { proc with krnl := { proc.krnl with mm := mm } }) := by
  unfold pgread
  rw [hbase, ok_bind]
  simp only [hentry]
  rfl

theorem reg_of_pgwrite {junk : Junk} {data : Byte} {destination : Word32}
    {outcome : Int × PagingProc Proc}
    (hwrite : pgwrite junk proc data destination offset = .ok outcome) :
    ∃ base, proc.reg destination = .ok base := by
  obtain ⟨base, hbase, -⟩ := bind_eq_ok.mp hwrite
  exact ⟨base, hbase⟩

theorem pgwrite_eq (junk : Junk) (data : Byte) {destination : Word32}
    (hbase : proc.reg destination = .ok base)
    (hentry : proc.krnl.mm.pteGetEntry (pagingPgn (base + offset)) = (pte, mm)) :
    pgwrite junk proc data destination offset =
      if pagingPagePresent pte then
        pgwriteByte { proc with krnl := { proc.krnl with mm := mm } } data
          (pagingPgn (base + offset)) (pagingOffst (base + offset))
      else if pteSwapped pte then
        victimFrame junk { proc.krnl with mm := mm } >>= fun (vicfpn, krnl) =>
          swapBack junk.copied krnl ((pagingSwp pte).signExtend 64) vicfpn >>= fun krnl =>
            krnl.mm.pteSetFpn (pagingPgn (base + offset)) vicfpn >>= fun mm =>
              pgwriteByte { proc with
                krnl := enlistPgn { krnl with mm := mm } (pagingPgn (base + offset)) } data
                (pagingPgn (base + offset)) (pagingOffst (base + offset))
      else .ok (-1, { proc with krnl := { proc.krnl with mm := mm } }) := by
  unfold pgwrite
  rw [hbase, ok_bind]
  simp only [hentry]
  rfl

end Calls

/-! ## Owners -/

namespace Krnl

variable {krnl middle after : Krnl Proc}

/-- Same free lists and same entries. -/
structure SameOwners (krnl after : Krnl Proc) : Prop where
  mram : krnl.mram.SameFrames after.mram
  activeMswp : krnl.activeMswp.SameFrames after.activeMswp
  leaf : after.mm.leaf = krnl.mm.leaf

theorem SameOwners.refl (krnl : Krnl Proc) : krnl.SameOwners krnl where
  mram := MemphyStruct.SameFrames.refl _
  activeMswp := MemphyStruct.SameFrames.refl _
  leaf := rfl

theorem SameOwners.trans (hfirst : krnl.SameOwners middle) (hsecond : middle.SameOwners after) :
    krnl.SameOwners after where
  mram := hfirst.mram.trans hsecond.mram
  activeMswp := hfirst.activeMswp.trans hsecond.activeMswp
  leaf := hsecond.leaf.trans hfirst.leaf

theorem sameOwners_of_leaf {mm : MmStruct} (hleaf : mm.leaf = krnl.mm.leaf) :
    krnl.SameOwners { krnl with mm := mm } where
  mram := MemphyStruct.SameFrames.refl _
  activeMswp := MemphyStruct.SameFrames.refl _
  leaf := hleaf

end Krnl

variable {krnl after : Krnl Proc} {proc next : PagingProc Proc} {pgn off : Addr}

theorem sameOwners_mmSwapPage {junk : Byte} {vicfpn swpfpn : Addr}
    (hswap : mmSwapPage junk krnl vicfpn swpfpn = .ok after) :
    krnl.SameOwners after ∧ after.mm = krnl.mm := by
  unfold mmSwapPage at hswap
  obtain ⟨⟨mram, activeMswp⟩, hcopy, hswap⟩ := bind_eq_ok.mp hswap
  obtain rfl := Except.ok.inj hswap
  obtain ⟨hmram, hmswp⟩ := sameFrames_swapCpPage hcopy
  exact ⟨{ mram := hmram, activeMswp := hmswp, leaf := rfl }, rfl⟩

theorem sameOwners_swapBack {junk : Byte} {swpfpn vicfpn : Addr}
    (hswap : swapBack junk krnl swpfpn vicfpn = .ok after) :
    krnl.SameOwners after ∧ after.mm = krnl.mm := by
  unfold swapBack at hswap
  obtain ⟨⟨activeMswp, mram⟩, hcopy, hswap⟩ := bind_eq_ok.mp hswap
  obtain rfl := Except.ok.inj hswap
  obtain ⟨hmswp, hmram⟩ := sameFrames_swapCpPage hcopy
  exact ⟨{ mram := hmram, activeMswp := hmswp, leaf := rfl }, rfl⟩

theorem sameOwners_enlistPgn (krnl : Krnl Proc) (pgn : Addr) :
    krnl.SameOwners (enlistPgn krnl pgn) :=
  Krnl.sameOwners_of_leaf rfl

/-- The end of `pgread` changes one register. -/
theorem pgreadByte_eq_ok {junk : Junk} {destination : Word32} {status : Int}
    (hdirectories : proc.krnl.mm.HasDirectories)
    (hread : pgreadByte junk proc pgn off destination = .ok (status, next)) :
    status = 0 ∧ (∀ index, index.val ≠ destination.toNat → next.regs index = proc.regs index) ∧
      ∃ walked, proc.krnl.mm.Walked walked ∧ next.krnl = { proc.krnl with mm := walked } := by
  obtain ⟨walked, hentry, hwalked⟩ := hdirectories.pteGetEntry pgn
  unfold pgreadByte at hread
  simp only [hentry] at hread
  obtain ⟨⟨value, mram⟩, hbyte, hread⟩ := bind_eq_ok.mp hread
  obtain rfl := MemphyStruct.read_eq_self hbyte
  obtain ⟨final, hset, hread⟩ := bind_eq_ok.mp hread
  obtain ⟨rfl, rfl⟩ := Prod.mk.inj (Except.ok.inj hread)
  obtain ⟨hkrnl, -, hothers⟩ := setReg_eq_ok hset
  exact ⟨rfl, hothers, walked, hwalked, hkrnl⟩

/-- The end of `pgwrite` changes one cell of RAM. -/
theorem pgwriteByte_eq_ok {data : Byte} {status : Int}
    (hdirectories : proc.krnl.mm.HasDirectories)
    (hwrite : pgwriteByte proc data pgn off = .ok (status, next)) :
    status = 0 ∧ next.regs = proc.regs ∧ ∃ walked mram, proc.krnl.mm.Walked walked ∧
      next.krnl = { proc.krnl with mm := walked, mram := mram } ∧
      proc.krnl.mram.SameFrames mram ∧
      mram.storage.length = proc.krnl.mram.storage.length ∧
      ∀ index, index ≠ (phyadr (proc.krnl.mm.pte pgn) off).toNat →
        mram.storage[index]? = proc.krnl.mram.storage[index]? := by
  obtain ⟨walked, hentry, hwalked⟩ := hdirectories.pteGetEntry pgn
  unfold pgwriteByte at hwrite
  simp only [hentry] at hwrite
  obtain ⟨⟨written, mram⟩, hbyte, hwrite⟩ := bind_eq_ok.mp hwrite
  obtain ⟨rfl, rfl⟩ := Prod.mk.inj (Except.ok.inj hwrite)
  exact ⟨rfl, rfl, walked, mram, hwalked, rfl, MemphyStruct.write_eq_ok hbyte⟩

theorem sameOwners_pgreadByte {junk : Junk} {destination : Word32} {status : Int}
    (hdirectories : proc.krnl.mm.HasDirectories)
    (hread : pgreadByte junk proc pgn off destination = .ok (status, next)) :
    proc.krnl.SameOwners next.krnl := by
  obtain ⟨-, -, walked, hwalked, hnext⟩ := pgreadByte_eq_ok hdirectories hread
  rw [hnext]
  exact Krnl.sameOwners_of_leaf hwalked.leaf

theorem sameOwners_pgwriteByte {data : Byte} {status : Int}
    (hdirectories : proc.krnl.mm.HasDirectories)
    (hwrite : pgwriteByte proc data pgn off = .ok (status, next)) :
    proc.krnl.SameOwners next.krnl := by
  obtain ⟨-, -, walked, mram, hwalked, hnext, hframes, -⟩ :=
    pgwriteByte_eq_ok hdirectories hwrite
  rw [hnext]
  exact
    { mram := hframes
      activeMswp := MemphyStruct.SameFrames.refl _
      leaf := hwalked.leaf }

end SimpleOs
