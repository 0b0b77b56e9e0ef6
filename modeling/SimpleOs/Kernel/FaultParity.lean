import SimpleOs.Kernel.FrameMoves

/-! # Reading and writing through a fault

`pgread` and `pgwrite` each have their own copy of the fault handler. They agree about a
page that is present, and about one that is nowhere. When they bring a page in, `pgwrite`
maps it to its frame and `pgread` does not.
-/

namespace SimpleOs

variable {Proc : Type}

/-! ## With a frame -/

variable {proc : PagingProc Proc} {base offset : Addr} {mm : MmStruct} {pte : Word32}

/-- With a frame, and the page copied into it, only the last access is left. -/
theorem pgread_of_back {junk : Junk} {source : Word32} (destination : Word32) {vicfpn : Addr}
    {framed back : Krnl Proc} (hbase : proc.reg source = .ok base)
    (hentry : proc.krnl.mm.pteGetEntry (pagingPgn (base + offset)) = (pte, mm))
    (habsent : pagingPagePresent pte = false) (hswapped : pteSwapped pte = true)
    (hframe : victimFrame junk { proc.krnl with mm := mm } = .ok (vicfpn, framed))
    (hback : swapBack junk.copied framed ((pagingSwp pte).setWidth 64) vicfpn = .ok back) :
    pgread junk proc source offset destination =
      pgreadByte junk { proc with krnl := enlistPgn back (pagingPgn (base + offset)) }
        (pagingPgn (base + offset)) (pagingOffst (base + offset)) destination := by
  rw [pgread_eq junk destination hbase hentry, habsent, if_neg (by decide), hswapped, if_pos rfl,
    hframe, ok_bind]
  simp only [hback, ok_bind]

/-- `pgwrite` also sets the entry. -/
theorem pgwrite_of_back {junk : Junk} (data : Byte) {destination : Word32} {vicfpn : Addr}
    {framed back : Krnl Proc} {mapped : MmStruct} (hbase : proc.reg destination = .ok base)
    (hentry : proc.krnl.mm.pteGetEntry (pagingPgn (base + offset)) = (pte, mm))
    (habsent : pagingPagePresent pte = false) (hswapped : pteSwapped pte = true)
    (hframe : victimFrame junk { proc.krnl with mm := mm } = .ok (vicfpn, framed))
    (hback : swapBack junk.copied framed ((pagingSwp pte).signExtend 64) vicfpn = .ok back)
    (hset : back.mm.pteSetFpn (pagingPgn (base + offset)) vicfpn = .ok mapped) :
    pgwrite junk proc data destination offset =
      pgwriteByte { proc with
        krnl := enlistPgn { back with mm := mapped } (pagingPgn (base + offset)) } data
        (pagingPgn (base + offset)) (pagingOffst (base + offset)) := by
  rw [pgwrite_eq junk data hbase hentry, habsent, if_neg (by decide), hswapped, if_pos rfl,
    hframe, ok_bind]
  simp only [hback, hset, ok_bind]

/-! ## The last access -/

/-- Reading and writing at an address complete together. -/
theorem read_completes_iff (mp : MemphyStruct) (addr : Addr) (data : Byte) :
    (∃ read, mp.read addr = .ok read) ↔ ∃ written, mp.write addr data = .ok written := by
  unfold MemphyStruct.read MemphyStruct.seqRead MemphyStruct.write MemphyStruct.seqWrite
  cases hrandom : mp.rdmflg with
  | false => simp
  | true =>
      simp only [if_true, MemphyStruct.load, MemphyStruct.store]
      by_cases haddr : addr.toNat < mp.storage.length
      · simp [haddr, Except.map]
      · simp [haddr, Except.map]

/-! ## Agreement -/

/-- The two outcomes differ at most in the cell that was written and in the register that was
read into. -/
structure Alike (vadr : Addr) (destination : Word32) (reader writer : PagingProc Proc) :
    Prop where
  leaf : reader.krnl.mm.leaf = writer.krnl.mm.leaf
  fifoPgn : reader.krnl.mm.fifoPgn = writer.krnl.mm.fifoPgn
  mram_free : reader.krnl.mram.freeFpList = writer.krnl.mram.freeFpList
  mswp_free : reader.krnl.activeMswp.freeFpList = writer.krnl.activeMswp.freeFpList
  mswp_storage : reader.krnl.activeMswp.storage = writer.krnl.activeMswp.storage
  mram_length : reader.krnl.mram.storage.length = writer.krnl.mram.storage.length
  mram_storage : ∀ index : Nat,
    index ≠ (phyadr (writer.krnl.mm.pte (pagingPgn vadr)) (pagingOffst vadr)).toNat →
      reader.krnl.mram.storage[index]? = writer.krnl.mram.storage[index]?
  regs : ∀ index, index.val ≠ destination.toNat → reader.regs index = writer.regs index

/-- Two walks from the same tables. -/
theorem alike_of_walked {walked other : MmStruct} {mram : MemphyStruct}
    {reader writer : PagingProc Proc} {vadr : Addr} {destination : Word32}
    (hwalked : proc.krnl.mm.Walked walked) (hother : proc.krnl.mm.Walked other)
    (hreader : reader.krnl = { proc.krnl with mm := walked })
    (hwriter : writer.krnl = { proc.krnl with mm := other, mram := mram })
    (hfree : mram.freeFpList = proc.krnl.mram.freeFpList)
    (hlength : mram.storage.length = proc.krnl.mram.storage.length)
    (hcells : ∀ index : Nat,
      index ≠ (phyadr (proc.krnl.mm.pte (pagingPgn vadr)) (pagingOffst vadr)).toNat →
        mram.storage[index]? = proc.krnl.mram.storage[index]?)
    (hregs : ∀ index, index.val ≠ destination.toNat → reader.regs index = writer.regs index) :
    Alike vadr destination reader writer where
  leaf := by
    rw [hreader, hwriter]
    exact hwalked.leaf.trans hother.leaf.symm
  fifoPgn := by
    rw [hreader, hwriter]
    exact hwalked.fifoPgn.trans hother.fifoPgn.symm
  mram_free := by
    rw [hreader, hwriter]
    exact hfree.symm
  mswp_free := by rw [hreader, hwriter]
  mswp_storage := by rw [hreader, hwriter]
  mram_length := by
    rw [hreader, hwriter]
    exact hlength.symm
  mram_storage index hindex := by
    rw [hwriter] at hindex
    rw [hreader, hwriter]
    exact (hcells index (hother.pte (pagingPgn vadr) ▸ hindex)).symm
  regs := hregs

/-- From the same state on, the last accesses are alike. -/
theorem alike_of_bytes {junk : Junk} {reader writer : PagingProc Proc} {vadr : Addr}
    {destination : Word32} {data : Byte} {readStatus writeStatus : Int}
    (hdirectories : proc.krnl.mm.HasDirectories)
    (hread : pgreadByte junk proc (pagingPgn vadr) (pagingOffst vadr) destination =
      .ok (readStatus, reader))
    (hwrite : pgwriteByte proc data (pagingPgn vadr) (pagingOffst vadr) =
      .ok (writeStatus, writer)) :
    readStatus = writeStatus ∧ Alike vadr destination reader writer := by
  obtain ⟨rfl, hregs, walked, hwalked, hreader⟩ := pgreadByte_eq_ok hdirectories hread
  obtain ⟨rfl, hsameRegs, other, mram, hother, hwriter, hframes, hlength, hcells⟩ :=
    pgwriteByte_eq_ok hdirectories hwrite
  refine ⟨rfl, alike_of_walked hwalked hother hreader hwriter hframes.freeFpList hlength hcells
    ?_⟩
  intro index hindex
  rw [hregs index hindex, hsameRegs]

/-- The last accesses complete together, wherever the byte read goes. -/
theorem bytes_complete_iff (junk : Junk) (proc : PagingProc Proc) (pgn off : Addr)
    {destination : Word32} (hdestination : destination.toNat < numRegs) (data : Byte) :
    (∃ read, pgreadByte junk proc pgn off destination = .ok read) ↔
      ∃ written, pgwriteByte proc data pgn off = .ok written := by
  unfold pgreadByte pgwriteByte
  simp only
  generalize hentry : proc.krnl.mm.pteGetEntry pgn = entry
  have hcompletes := read_completes_iff proc.krnl.mram (phyadr entry.1 off) data
  constructor
  · rintro ⟨read, hread⟩
    obtain ⟨byte, hbyte, -⟩ := bind_eq_ok.mp hread
    obtain ⟨written, hwritten⟩ := hcompletes.mp ⟨byte, hbyte⟩
    exact ⟨_, bind_eq_ok.mpr ⟨written, hwritten, rfl⟩⟩
  · rintro ⟨written, hwritten⟩
    obtain ⟨byte, hbyte, -⟩ := bind_eq_ok.mp hwritten
    obtain ⟨⟨value, mram⟩, hvalue⟩ := hcompletes.mpr ⟨byte, hbyte⟩
    obtain ⟨next, hnext⟩ := exists_setReg
      ({ proc with krnl := { proc.krnl with mm := entry.2, mram := mram } } : PagingProc Proc)
      hdestination ((value.getD junk.data).signExtend 64)
    exact ⟨_, bind_eq_ok.mpr ⟨(value, mram), hvalue, bind_eq_ok.mpr ⟨next, hnext, rfl⟩⟩⟩

/-! ## Bringing a page in -/

/-- A byte below the end of RAM can be read and written. -/
theorem exists_bytes (junk : Junk) (proc : PagingProc Proc) {pgn off : Addr}
    {destination : Word32} (data : Byte)
    (hdestination : destination.toNat < numRegs) (hdirectories : proc.krnl.mm.HasDirectories)
    (hrandom : proc.krnl.mram.rdmflg = true)
    (hstorage : (phyadr (proc.krnl.mm.pte pgn) off).toNat < proc.krnl.mram.storage.length) :
    (∃ reader, pgreadByte junk proc pgn off destination = .ok (0, reader)) ∧
      ∃ writer, pgwriteByte proc data pgn off = .ok (0, writer) := by
  obtain ⟨reader, hread, -⟩ := exists_pgreadByte junk proc hdestination hdirectories hrandom
    (List.getElem?_eq_getElem hstorage)
  obtain ⟨⟨status, writer⟩, hwrite⟩ :=
    (bytes_complete_iff junk proc pgn off hdestination data).mp ⟨_, hread⟩
  obtain ⟨rfl, -⟩ := pgwriteByte_eq_ok hdirectories hwrite
  exact ⟨⟨reader, hread⟩, writer, hwrite⟩

/-- Both complete when the page can be brought in, and the byte is in RAM before and after
its entry is set. -/
theorem exists_of_back {junk : Junk} {source destination : Word32} (data : Byte)
    {vicfpn : Addr} {framed back : Krnl Proc} (hbase : proc.reg source = .ok base)
    (hentry : proc.krnl.mm.pteGetEntry (pagingPgn (base + offset)) = (pte, mm))
    (habsent : pagingPagePresent pte = false) (hswapped : pteSwapped pte = true)
    (hframe : victimFrame junk { proc.krnl with mm := mm } = .ok (vicfpn, framed))
    (hsame : (pagingSwp pte).signExtend 64 = (pagingSwp pte).setWidth 64)
    (hback : swapBack junk.copied framed ((pagingSwp pte).setWidth 64) vicfpn = .ok back)
    (hdirectories : back.mm.HasDirectories) (hdestination : destination.toNat < numRegs)
    (hrandom : back.mram.rdmflg = true)
    (hreadAt : (phyadr (back.mm.pte (pagingPgn (base + offset)))
      (pagingOffst (base + offset))).toNat < back.mram.storage.length)
    (hwriteAt : ∀ prior, (phyadr ((fpnEntry vicfpn prior).setWidth 32)
      (pagingOffst (base + offset))).toNat < back.mram.storage.length) :
    (∃ reader, pgread junk proc source offset destination = .ok (0, reader)) ∧
      ∃ writer, pgwrite junk proc data source offset = .ok (0, writer) := by
  constructor
  · rw [pgread_of_back destination hbase hentry habsent hswapped hframe hback]
    obtain ⟨hread, -⟩ := exists_bytes junk
      { proc with krnl := enlistPgn back (pagingPgn (base + offset)) } data hdestination
      hdirectories hrandom hreadAt
    exact hread
  · obtain ⟨pgd, hpgd⟩ := Option.isSome_iff_exists.mp hdirectories.1
    obtain ⟨mapped, hset⟩ := MmStruct.exists_updatePte hpgd (pagingPgn (base + offset))
      (fpnEntry vicfpn)
    have hpte : mapped.pte (pagingPgn (base + offset)) =
        (fpnEntry vicfpn (back.mm.leaf (pagingPgn (base + offset)))).setWidth 32 := by
      unfold MmStruct.pte
      rw [MmStruct.leaf_updatePte_self hset]
    rw [pgwrite_of_back data hbase hentry habsent hswapped hframe (hsame.symm ▸ hback) hset]
    have hbyte := hwriteAt (back.mm.leaf (pagingPgn (base + offset)))
    rw [← hpte] at hbyte
    obtain ⟨-, hwrite⟩ := exists_bytes junk
      { proc with
        krnl := enlistPgn { back with mm := mapped } (pagingPgn (base + offset)) } data
      hdestination (hdirectories.updatePte hset).1 hrandom hbyte
    exact hwrite

/-- Getting a frame gives none to a page without one. -/
theorem pteFrame_victimFrame {junk : Junk} {krnl after : Krnl Proc} {vicfpn pgn : Addr}
    (hdirectories : krnl.mm.HasDirectories) (hframe : victimFrame junk krnl = .ok (vicfpn, after))
    (hnone : pteFrame (krnl.mm.pte pgn) = none) : pteFrame (after.mm.pte pgn) = none := by
  obtain ⟨-, -, hentry⟩ := Krnl.moves_victimFrame hdirectories hframe
  have htaken : (pteFrame (after.mm.pte pgn)).toList = (krnl.forEntry junk pgn).framesTaken :=
    congrArg Transfer.framesTaken (hentry pgn 0 hnone)
  have hempty : (krnl.forEntry junk pgn).framesTaken = [] := by
    unfold Krnl.forEntry
    split <;> rfl
  rw [hempty] at htaken
  exact Option.toList_eq_nil_iff.mp htaken

/-- The page that `pgread` brought in is mapped to no frame. -/
theorem pteFrame_pgread {junk : Junk} {next : PagingProc Proc} {source destination : Word32}
    {status : Int} (hdirectories : proc.krnl.mm.HasDirectories) (hbase : proc.reg source = .ok base)
    (hbrings : proc.krnl.BringsIn (pagingPgn (base + offset)))
    (hread : pgread junk proc source offset destination = .ok (status, next)) :
    pteFrame (next.krnl.mm.pte (pagingPgn (base + offset))) = none := by
  obtain ⟨walked, hentry, hwalked⟩ :=
    hdirectories.pteGetEntry (pagingPgn (base + offset))
  rw [pgread_eq junk destination hbase hentry, hbrings.1, if_neg (by decide), hbrings.2,
    if_pos rfl] at hread
  obtain ⟨⟨vicfpn, framed⟩, hframe, hread⟩ := bind_eq_ok.mp hread
  obtain ⟨back, hback, hread⟩ := bind_eq_ok.mp hread
  have hframed : framed.mm.HasDirectories :=
    (Krnl.moves_victimFrame hwalked.directories hframe).1
  have hbackMm : back.mm = framed.mm := (sameOwners_swapBack hback).2
  have hlisted : (enlistPgn back (pagingPgn (base + offset))).mm.HasDirectories := by
    change back.mm.HasDirectories
    rwa [hbackMm]
  have hlast := (sameOwners_pgreadByte hlisted hread).leaf
  change next.krnl.mm.leaf = back.mm.leaf at hlast
  rw [hbackMm] at hlast
  rw [MmStruct.pte_congr hlast]
  apply pteFrame_victimFrame hwalked.directories hframe
  change pteFrame (walked.pte _) = none
  rw [hwalked.pte]
  exact Krnl.pteFrame_of_bringsIn hbrings

/-- The page that `pgwrite` brought in is mapped to a frame. -/
theorem pteFrame_pgwrite {junk : Junk} {next : PagingProc Proc} {data : Byte}
    {destination : Word32} {status : Int} (hdirectories : proc.krnl.mm.HasDirectories)
    (hbase : proc.reg destination = .ok base)
    (hbrings : proc.krnl.BringsIn (pagingPgn (base + offset)))
    (hwrite : pgwrite junk proc data destination offset = .ok (status, next)) :
    pteFrame (next.krnl.mm.pte (pagingPgn (base + offset))) ≠ none := by
  obtain ⟨walked, hentry, hwalked⟩ :=
    hdirectories.pteGetEntry (pagingPgn (base + offset))
  rw [pgwrite_eq junk data hbase hentry, hbrings.1, if_neg (by decide), hbrings.2,
    if_pos rfl] at hwrite
  obtain ⟨⟨vicfpn, framed⟩, hframe, hwrite⟩ := bind_eq_ok.mp hwrite
  obtain ⟨back, hback, hwrite⟩ := bind_eq_ok.mp hwrite
  obtain ⟨mm, hset, hwrite⟩ := bind_eq_ok.mp hwrite
  have hframed : framed.mm.HasDirectories :=
    (Krnl.moves_victimFrame hwalked.directories hframe).1
  have hbackMm : back.mm = framed.mm := (sameOwners_swapBack hback).2
  rw [← hbackMm] at hframed
  have hlast := (sameOwners_pgwriteByte (hframed.updatePte hset).1 hwrite).leaf
  change next.krnl.mm.leaf = mm.leaf at hlast
  rw [MmStruct.pte_congr hlast, ← MmStruct.frameOf_pageOf, MmStruct.frameOf_updatePte hset,
    Function.update_self, pteFrame_fpnEntry]
  exact nofun

/-! ## Parity -/

/-- Without a page to bring in, the two agree. -/
theorem alike_of_not_bringsIn {junk other : Junk} {reader writer : PagingProc Proc}
    {source destination target : Word32} {vadr offset' base' : Addr} {data : Byte}
    {readStatus writeStatus : Int} (hdirectories : proc.krnl.mm.HasDirectories)
    (hsource : proc.reg source = .ok base) (htarget : proc.reg target = .ok base')
    (hreadAt : base + offset = vadr) (hwriteAt : base' + offset' = vadr)
    (hstays : ¬ proc.krnl.BringsIn (pagingPgn vadr))
    (hread : pgread junk proc source offset destination = .ok (readStatus, reader))
    (hwrite : pgwrite other proc data target offset' = .ok (writeStatus, writer)) :
    readStatus = writeStatus ∧ Alike vadr destination reader writer := by
  obtain ⟨walked, hentry, hwalked⟩ := hdirectories.pteGetEntry (pagingPgn vadr)
  subst hreadAt
  rw [pgread_eq junk destination hsource hentry] at hread
  rw [pgwrite_eq other data htarget (hwriteAt.symm ▸ hentry), hwriteAt] at hwrite
  by_cases hpresent : pagingPagePresent (proc.krnl.mm.pte (pagingPgn (base + offset))) = true
  · rw [if_pos hpresent] at hread hwrite
    have hdirs : ({ proc with krnl := { proc.krnl with mm := walked } } :
        PagingProc Proc).krnl.mm.HasDirectories := hwalked.directories
    exact alike_of_bytes hdirs hread hwrite
  · have hswapped : ¬ pteSwapped (proc.krnl.mm.pte (pagingPgn (base + offset))) = true :=
      fun hswapped => hstays ⟨Bool.eq_false_iff.mpr hpresent, hswapped⟩
    rw [if_neg hpresent, if_neg hswapped] at hread hwrite
    obtain ⟨rfl, rfl⟩ := Prod.mk.inj (Except.ok.inj hread)
    obtain ⟨rfl, rfl⟩ := Prod.mk.inj (Except.ok.inj hwrite)
    exact ⟨rfl, alike_of_walked hwalked hwalked rfl rfl rfl rfl (fun _ _ => rfl) fun _ _ => rfl⟩

/-- Without a page to bring in, the two complete together. -/
theorem complete_iff_of_not_bringsIn (junk other : Junk)
    {source destination target : Word32} {vadr offset' base' : Addr} (data : Byte)
    (hdirectories : proc.krnl.mm.HasDirectories)
    (hsource : proc.reg source = .ok base) (htarget : proc.reg target = .ok base')
    (hreadAt : base + offset = vadr) (hwriteAt : base' + offset' = vadr)
    (hstays : ¬ proc.krnl.BringsIn (pagingPgn vadr))
    (hdestination : destination.toNat < numRegs) :
    (∃ read, pgread junk proc source offset destination = .ok read) ↔
      ∃ written, pgwrite other proc data target offset' = .ok written := by
  obtain ⟨walked, hentry, hwalked⟩ := hdirectories.pteGetEntry (pagingPgn vadr)
  subst hreadAt
  rw [pgread_eq junk destination hsource hentry,
    pgwrite_eq other data htarget (hwriteAt.symm ▸ hentry), hwriteAt]
  by_cases hpresent : pagingPagePresent (proc.krnl.mm.pte (pagingPgn (base + offset))) = true
  · rw [if_pos hpresent, if_pos hpresent]
    exact bytes_complete_iff junk _ _ _ hdestination data
  · have hswapped : ¬ pteSwapped (proc.krnl.mm.pte (pagingPgn (base + offset))) = true :=
      fun hswapped => hstays ⟨Bool.eq_false_iff.mpr hpresent, hswapped⟩
    simp [hpresent, hswapped]

/-- The two handlers have the same outcome exactly when there is no page to bring in. -/
theorem alike_iff_not_bringsIn (junk other : Junk) (proc : PagingProc Proc)
    (hdirectories : proc.krnl.mm.HasDirectories) (vadr : Addr)
    {source target : Word32} {base offset base' offset' : Addr}
    (hsource : proc.reg source = .ok base) (htarget : proc.reg target = .ok base')
    (hreadAt : base + offset = vadr) (hwriteAt : base' + offset' = vadr)
    (destination : Word32) (data : Byte) :
    (∀ readStatus reader writeStatus writer,
      pgread junk proc source offset destination = .ok (readStatus, reader) →
      pgwrite other proc data target offset' = .ok (writeStatus, writer) →
      ((readStatus = writeStatus ∧ Alike vadr destination reader writer) ↔
        ¬ proc.krnl.BringsIn (pagingPgn vadr))) ∧
    (destination.toNat < numRegs → ¬ proc.krnl.BringsIn (pagingPgn vadr) →
      ((∃ read, pgread junk proc source offset destination = .ok read) ↔
        ∃ written, pgwrite other proc data target offset' = .ok written)) := by
  constructor
  · intro readStatus reader writeStatus writer hread hwrite
    constructor
    · rintro ⟨-, halike⟩ hbrings
      subst hreadAt
      have hnone := pteFrame_pgread hdirectories hsource hbrings hread
      rw [MmStruct.pte_congr halike.leaf, ← hwriteAt] at hnone
      rw [← hwriteAt] at hbrings
      exact pteFrame_pgwrite hdirectories htarget hbrings hwrite hnone
    · intro hstays
      exact alike_of_not_bringsIn hdirectories hsource htarget hreadAt hwriteAt hstays hread hwrite
  · intro hdestination hstays
    exact complete_iff_of_not_bringsIn junk other data hdirectories hsource htarget hreadAt
      hwriteAt hstays hdestination

/-- The sixth byte of a present page is read into the second register, and written. -/
theorem alike_iff_not_bringsIn_sevens :
    ∃ reader writer,
      pgread ⟨0, 0, 0⟩ { regs := fun _ => 0, krnl := sevens } 0 5 1 = .ok (0, reader) ∧
      pgwrite ⟨0, 0, 0⟩ { regs := fun _ => 0, krnl := sevens } 9 0 5 = .ok (0, writer) ∧
      Alike 5 1 reader writer := by
  have hread : (pgread ⟨0, 0, 0⟩ { regs := fun _ => 0, krnl := sevens } 0 5 1).toOption.map
      Prod.fst = some 0 := by decide +kernel
  have hwrite : (pgwrite ⟨0, 0, 0⟩ { regs := fun _ => 0, krnl := sevens } 9 0 5).toOption.map
      Prod.fst = some 0 := by decide +kernel
  obtain ⟨⟨status, reader⟩, hreader, rfl⟩ := Option.map_eq_some_iff.mp hread
  obtain ⟨⟨status, writer⟩, hwriter, rfl⟩ := Option.map_eq_some_iff.mp hwrite
  rw [Runs.toOption_eq_some_iff] at hreader hwriter
  have hbase : ({ regs := fun _ => 0, krnl := sevens } : PagingProc Unit).reg 0 = .ok 0 := rfl
  have hvadr : (0 : Addr) + 5 = 5 := rfl
  have hsevens := alike_iff_not_bringsIn ⟨0, 0, 0⟩ ⟨0, 0, 0⟩
    { regs := fun _ => 0, krnl := sevens } resident_sevens.directories 5 hbase hbase hvadr hvadr
    1 9
  have hstays : ¬ sevens.BringsIn (pagingPgn 5) := by decide +kernel
  exact ⟨reader, writer, hreader, hwriter, ((hsevens.1 0 reader 0 writer hreader hwriter).mpr
    hstays).2⟩

/-- Page 0 is in the only slot, and not present. -/
def swappedOnly : Krnl Unit :=
  { sevens with
    mm :=
      { SimpleOs.initMm .null with
        pgd := some (Radix.modify 0 (fun _ => 0x40000000) 4 (Radix.fresh 0 4)
          (getPdFromPagenum 0))
        pt := some fun _ => 0 } }

/-- Page 0 can be brought into the free frame. -/
theorem exists_swapBack_swappedOnly (walked : MmStruct) :
    ∃ framed back : Krnl Unit,
      victimFrame ⟨0, 0, 0⟩ { swappedOnly with mm := walked } = .ok (0, framed) ∧
        swapBack 0 framed 0 0 = .ok back ∧ back.mm = walked ∧ back.mram.rdmflg = true ∧
        back.mram.storage.length = 512 := by
  have hframe : ({ sevens.mram with
      freeFpList := { nodes := [], stop := .null } } : MemphyStruct).HasFrame 0 :=
    ⟨by decide +kernel, by decide⟩
  obtain ⟨storage, hcopy, hlength, -⟩ :=
    swapCpPage_of_hasFrame 0 rfl rfl hasFrame_sevens hframe
  refine ⟨_, { swappedOnly with
    mm := walked
    mram :=
      { sevens.mram with
        storage := storage
        freeFpList := { nodes := [], stop := .null } } },
    rfl, bind_eq_ok.mpr ⟨_, hcopy, rfl⟩, rfl, rfl, hlength.trans ?_⟩
  decide +kernel

/-- Both calls complete. -/
theorem exists_calls_swappedOnly :
    (∃ reader, pgread ⟨0, 0, 0⟩ { regs := fun _ => 0, krnl := swappedOnly } 0 5 1 =
        .ok (0, reader)) ∧
      ∃ writer, pgwrite ⟨0, 0, 0⟩ { regs := fun _ => 0, krnl := swappedOnly } 9 0 5 =
        .ok (0, writer) := by
  have hdirectories : swappedOnly.mm.HasDirectories := by decide
  have hpte : swappedOnly.mm.pte 0 = 0x40000000 := by decide +kernel
  have hvadr : pagingPgn ((0 : Addr) + 5) = 0 ∧ pagingOffst ((0 : Addr) + 5) = 5 := by decide
  obtain ⟨walked, hentry, hwalked⟩ := hdirectories.pteGetEntry 0
  obtain ⟨framed, back, hframe, hback, hmm, hrandom, hlength⟩ :=
    exists_swapBack_swappedOnly walked
  have hdestination : (1 : Word32).toNat < numRegs := by decide
  generalize hkrnl : swappedOnly = krnl at *
  have hbase : ({ regs := fun _ => 0, krnl := krnl } : PagingProc Unit).reg 0 = .ok 0 := rfl
  rw [hpte] at hentry
  rw [← hvadr.1] at hentry
  refine exists_of_back 9 hbase hentry (by decide) (by decide) hframe (by decide) hback
    (hmm.symm ▸ hwalked.directories) hdestination hrandom ?_ ?_
  · rw [hmm, hwalked.pte, hvadr.1, hvadr.2, hpte, hlength]
    decide
  · intro prior
    have hfpn : pagingFpn ((fpnEntry 0 prior).setWidth 32) = 0 := by
      apply BitVec.eq_of_toNat_eq
      rw [pagingFpn_fpnEntry]
      rfl
    rw [hvadr.2, hlength]
    unfold phyadr
    rw [hfpn]
    decide

/-- After a read the page is in no frame, and after a write it is in one. -/
theorem not_alike_swappedOnly :
    swappedOnly.mm.HasDirectories ∧
    ∃ reader writer,
      pgread ⟨0, 0, 0⟩ { regs := fun _ => 0, krnl := swappedOnly } 0 5 1 = .ok (0, reader) ∧
      pgwrite ⟨0, 0, 0⟩ { regs := fun _ => 0, krnl := swappedOnly } 9 0 5 = .ok (0, writer) ∧
      pteFrame (reader.krnl.mm.pte 0) = none ∧ pteFrame (writer.krnl.mm.pte 0) ≠ none ∧
      ¬ Alike 5 1 reader writer := by
  obtain ⟨⟨reader, hread⟩, writer, hwrite⟩ := exists_calls_swappedOnly
  have hdirectories : swappedOnly.mm.HasDirectories := by decide
  have hbase : ({ regs := fun _ => 0, krnl := swappedOnly } : PagingProc Unit).reg 0 = .ok 0 := rfl
  have hbrings : swappedOnly.BringsIn (pagingPgn (0 + 5)) := by decide +kernel
  have hnone := pteFrame_pgread hdirectories hbase hbrings hread
  have hsome := pteFrame_pgwrite hdirectories hbase hbrings hwrite
  refine ⟨hdirectories, reader, writer, hread, hwrite, hnone, hsome, fun halike => ?_⟩
  exact hsome (MmStruct.pte_congr halike.leaf _ ▸ hnone)

end SimpleOs
