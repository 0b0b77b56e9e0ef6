import SimpleOs.Kernel.Victim
import SimpleOs.Memory.Entry

/-! # Looking up an address

`pg_getval` and `pg_setval` look a page up and then ask RAM for one byte. Whether the lookup
has a frame to report, and whether RAM takes the access, can be told from the state before,
whatever directories there are. Neither changes more of RAM than the byte that is stored.
-/

namespace SimpleOs

variable {Proc : Type}

namespace Krnl

/-! ## The lookup -/

/-- `pg_getpage` has a frame to report: the page is present, or there is a victim with a
page before it, and a slot. -/
def Finds (krnl : Krnl Proc) (pgn : Addr) : Prop :=
  pagingPagePresent (krnl.mm.entry pgn) = true ∨
    2 ≤ krnl.mm.fifoPgn.length ∧ krnl.activeMswp.freeFpList.nodes ≠ []

instance (krnl : Krnl Proc) (pgn : Addr) : Decidable (krnl.Finds pgn) :=
  inferInstanceAs (Decidable (_ ∨ _))

/-- `pg_getpage` fails: the page is absent, and there is no victim or no slot for it. -/
def Misses (krnl : Krnl Proc) (pgn : Addr) : Prop :=
  pagingPagePresent (krnl.mm.entry pgn) = false ∧
    (krnl.mm.fifoPgn = [] ∨ 2 ≤ krnl.mm.fifoPgn.length ∧
      krnl.activeMswp.freeFpList = { nodes := [], stop := .null })

/-- A lookup leaves RAM and the areas alone, and the top directory where it is. -/
structure LookedUp (krnl after : Krnl Proc) : Prop where
  mram : after.mram = krnl.mram
  mmap : after.mm.mmap = krnl.mm.mmap
  pgd : after.mm.pgd.isSome = krnl.mm.pgd.isSome

/-- The ways that `pg_getpage` can go, whatever directories there are. -/
inductive LookupCase (krnl : Krnl Proc) (pgn : Addr) :
    Except Fault (Option Word32 × Krnl Proc) → Prop
  | found {after : Krnl Proc} (hfinds : krnl.Finds pgn) (hlooked : krnl.LookedUp after) :
      LookupCase krnl pgn (.ok (some (pagingFpn (krnl.mm.entry pgn)), after))
  | missed {after : Krnl Proc} (hmisses : krnl.Misses pgn) (hlooked : krnl.LookedUp after) :
      LookupCase krnl pgn (.ok (none, after))
  | faulted {fault : Fault} (hfinds : ¬ krnl.Finds pgn) (hmisses : ¬ krnl.Misses pgn) :
      LookupCase krnl pgn (.error fault)

variable {krnl : Krnl Proc}

theorem not_misses_of_finds {pgn : Addr} (hfinds : krnl.Finds pgn) : ¬ krnl.Misses pgn := by
  rintro ⟨habsent, hnone⟩
  rcases hfinds with hpresent | ⟨htwo, hslots⟩
  · exact absurd (hpresent.symm.trans habsent) (by decide)
  · rcases hnone with hnil | ⟨-, hlist⟩
    · simp [hnil] at htwo
    · exact hslots (by rw [hlist])

theorem lookupCase (krnl : Krnl Proc) (pgn : Addr) :
    krnl.LookupCase pgn (pgGetpage krnl pgn) := by
  obtain ⟨walked, hentry, hwalked⟩ := krnl.mm.pteGetEntry_touched pgn
  unfold pgGetpage
  simp only [hentry]
  split
  next hpresent =>
    obtain ⟨again, hagain, htouched⟩ := walked.pteGetEntry_touched pgn
    simp only [hagain, hwalked.entry]
    exact .found (Or.inl hpresent)
      ⟨rfl, htouched.mmap.trans hwalked.mmap, htouched.pgd.trans hwalked.pgd⟩
  next hpresent =>
    have habsent : pagingPagePresent (krnl.mm.entry pgn) = false := Bool.not_eq_true _ ▸ hpresent
    have hfifoPgn := hwalked.fifoPgn
    rcases MmStruct.findVictimPage_cases walked with ⟨hnil, hvictim⟩ | ⟨only, hfifo, hvictim⟩ |
      ⟨pages, vicpgn, hpages, hfifo, hvictim⟩
    · rw [hvictim]
      exact .missed ⟨habsent, Or.inl (hfifoPgn ▸ hnil)⟩ ⟨rfl, hwalked.mmap, hwalked.pgd⟩
    · rw [hvictim]
      refine .faulted ?_ ?_
      · simp [Finds, habsent, ← hfifoPgn, hfifo]
      · simp [Misses, ← hfifoPgn, hfifo]
    · have hpos := List.length_pos_of_ne_nil hpages
      have htwo : 2 ≤ krnl.mm.fifoPgn.length := by
        rw [← hfifoPgn, hfifo, List.length_append, List.length_singleton]
        omega
      rw [hvictim, ok_bind]
      simp only
      rcases krnl.activeMswp.getFreefp_cases with ⟨hslots, hslot⟩ | ⟨hslots, hslot⟩ |
        ⟨slot, slots, hslots, hslot⟩
      · rw [hslot]
        exact .missed ⟨habsent, Or.inr ⟨htwo, hslots⟩⟩ ⟨rfl, hwalked.mmap, hwalked.pgd⟩
      · rw [hslot]
        refine .faulted ?_ ?_
        · simp [Finds, habsent, hslots]
        · rintro ⟨-, hnil | ⟨-, hlist⟩⟩
          · simp [hnil] at htwo
          · simp [hslots] at hlist
      · have hlisted : krnl.mm.entry pgn =
            ({ walked with fifoPgn := pgn :: pages } : MmStruct).entry pgn :=
          (hwalked.entry pgn).symm
        obtain ⟨again, hagain, htouched⟩ :=
          ({ walked with fifoPgn := pgn :: pages } : MmStruct).pteGetEntry_touched pgn
        rw [hslot]
        simp only [ok_bind, hagain, ← hlisted]
        refine .found (Or.inr ⟨htwo, ?_⟩)
          ⟨rfl, htouched.mmap.trans hwalked.mmap, htouched.pgd.trans hwalked.pgd⟩
        rw [hslots]
        exact List.cons_ne_nil _ _

/-! ## The access -/

/-- The page that an address is looked up in. -/
def lookupPgn (addr : Word32) : Addr := (pagingPgn addr).signExtend 64

/-- The physical address of an address: its offset in the frame that its entry names. -/
def ramAddr (krnl : Krnl Proc) (addr : Word32) : Addr :=
  (phyaddr (pagingFpn (krnl.mm.entry (lookupPgn addr))) (pagingOffst addr)).signExtend 64

/-- The lookup fails, or it succeeds and RAM is not a random access device. -/
def AccessFails (krnl : Krnl Proc) (addr : Word32) : Prop :=
  krnl.Misses (lookupPgn addr) ∨ krnl.Finds (lookupPgn addr) ∧ krnl.mram.rdmflg = false

/-- The lookup succeeds, and RAM has this byte at the physical address. -/
structure Fetches (krnl : Krnl Proc) (addr : Word32) (byte : Byte) : Prop where
  finds : krnl.Finds (lookupPgn addr)
  random : krnl.mram.rdmflg = true
  byte : krnl.mram.storage[(krnl.ramAddr addr).toNat]? = some byte

/-- The ways that `pg_getval` can go. -/
inductive GetvalCase (krnl : Krnl Proc) (addr : Word32) :
    Except Fault (Option Byte × Krnl Proc) → Prop
  | fetched {byte : Byte} {after : Krnl Proc} (hfetches : krnl.Fetches addr byte)
      (hlooked : krnl.LookedUp after) : GetvalCase krnl addr (.ok (some byte, after))
  | failed {after : Krnl Proc} (hfails : krnl.AccessFails addr)
      (hlooked : krnl.LookedUp after) : GetvalCase krnl addr (.ok (none, after))
  | faulted {fault : Fault} (hfails : ¬ krnl.AccessFails addr)
      (hfetches : ∀ byte, ¬ krnl.Fetches addr byte) : GetvalCase krnl addr (.error fault)

/-- RAM takes the byte at the physical address, and nothing else of it changes. -/
structure Stores (krnl after : Krnl Proc) (addr : Word32) (data : Byte) : Prop where
  inside : (krnl.ramAddr addr).toNat < krnl.mram.storage.length
  mram : after.mram =
    { krnl.mram with storage := krnl.mram.storage.set (krnl.ramAddr addr).toNat data }

/-- The ways that `pg_setval` can go. -/
inductive SetvalCase (krnl : Krnl Proc) (addr : Word32) (data : Byte) :
    Except Fault (Int × Krnl Proc) → Prop
  | stored {after : Krnl Proc} (hfails : ¬ krnl.AccessFails addr)
      (hstores : krnl.Stores after addr data) : SetvalCase krnl addr data (.ok (0, after))
  | failed {after : Krnl Proc} (hfails : krnl.AccessFails addr)
      (hmram : after.mram = krnl.mram) : SetvalCase krnl addr data (.ok (-1, after))
  | faulted {fault : Fault} (hfails : ¬ krnl.AccessFails addr) :
      SetvalCase krnl addr data (.error fault)

theorem not_accessFails_of_random {addr : Word32} (hfinds : krnl.Finds (lookupPgn addr))
    (hrandom : krnl.mram.rdmflg = true) : ¬ krnl.AccessFails addr := by
  rintro (hmisses | ⟨-, hsequential⟩)
  · exact not_misses_of_finds hfinds hmisses
  · exact absurd (hrandom.symm.trans hsequential) (by decide)

theorem getvalCase (krnl : Krnl Proc) (addr : Word32) :
    krnl.GetvalCase addr (pgGetval krnl addr) := by
  have hlookup := lookupCase krnl (lookupPgn addr)
  unfold pgGetval
  change krnl.GetvalCase addr (pgGetpage krnl (lookupPgn addr) >>= _)
  generalize pgGetpage krnl (lookupPgn addr) = outcome at hlookup ⊢
  cases hlookup with
  | missed hmisses hlooked => exact .failed (Or.inl hmisses) hlooked
  | faulted hfinds hmisses =>
      refine .faulted ?_ fun byte hfetches => hfinds hfetches.finds
      rintro (hmissed | ⟨hfound, -⟩)
      · exact hmisses hmissed
      · exact hfinds hfound
  | @found after hfinds hlooked =>
      simp only [ok_bind]
      rw [hlooked.mram]
      change krnl.GetvalCase addr (krnl.mram.read (krnl.ramAddr addr) >>= _)
      unfold MemphyStruct.read MemphyStruct.seqRead
      cases hrandom : krnl.mram.rdmflg with
      | false => exact .failed (Or.inr ⟨hfinds, hrandom⟩) ⟨rfl, hlooked.mmap, hlooked.pgd⟩
      | true =>
          unfold MemphyStruct.load
          cases hbyte : krnl.mram.storage[(krnl.ramAddr addr).toNat]? with
          | none =>
              refine .faulted (not_accessFails_of_random hfinds hrandom) fun byte hfetches => ?_
              exact absurd (hbyte.symm.trans hfetches.byte) nofun
          | some byte =>
              exact .fetched ⟨hfinds, hrandom, hbyte⟩ ⟨rfl, hlooked.mmap, hlooked.pgd⟩

theorem setvalCase (krnl : Krnl Proc) (addr : Word32) (data : Byte) :
    krnl.SetvalCase addr data (pgSetval krnl addr data) := by
  have hlookup := lookupCase krnl (lookupPgn addr)
  unfold pgSetval
  change krnl.SetvalCase addr data (pgGetpage krnl (lookupPgn addr) >>= _)
  generalize pgGetpage krnl (lookupPgn addr) = outcome at hlookup ⊢
  cases hlookup with
  | missed hmisses hlooked => exact .failed (Or.inl hmisses) hlooked.mram
  | faulted hfinds hmisses =>
      refine .faulted ?_
      rintro (hmissed | ⟨hfound, -⟩)
      · exact hmisses hmissed
      · exact hfinds hfound
  | @found after hfinds hlooked =>
      simp only [ok_bind]
      rw [hlooked.mram]
      change krnl.SetvalCase addr data (krnl.mram.write (krnl.ramAddr addr) data >>= _)
      unfold MemphyStruct.write MemphyStruct.seqWrite
      cases hrandom : krnl.mram.rdmflg with
      | false => exact .failed (Or.inr ⟨hfinds, hrandom⟩) rfl
      | true =>
          have hnot := not_accessFails_of_random hfinds hrandom
          unfold MemphyStruct.store
          by_cases hinside : (krnl.ramAddr addr).toNat < krnl.mram.storage.length
          · rw [if_pos hinside]
            exact .stored hnot ⟨hinside, rfl⟩
          · rw [if_neg hinside]
            exact .faulted hnot

end Krnl

end SimpleOs
