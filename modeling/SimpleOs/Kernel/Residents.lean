import SimpleOs.Foundation.Roster
import SimpleOs.Kernel.FaultParity
import SimpleOs.Memory.MapRange

/-! # The list of resident pages

`fifo_pgn` should be a roster of the pages that are in a RAM frame. `vmap_page_range` puts
every page on it that it maps, whether it is there already or not. `pg_getpage` takes a page
off that stays mapped, and puts one on that is not mapped. `pgread` and `pgwrite` leave it
alone here, since none of these calls ever marks an entry as swapped without being present.
-/

namespace SimpleOs

variable {Proc : Type}

namespace MmStruct

/-- The entry of the page is present and not swapped. -/
def Maps (mm : MmStruct) (page : PageNumber) : Prop :=
  pagingPagePresent (mm.pte page.1) = true ∧ pteSwapped (mm.pte page.1) = false

/-- The list has each resident page once, and no other page. -/
def ListsResidents (mm : MmStruct) : Prop :=
  Roster.Lists (mm.fifoPgn.map pageOf) mm.Maps

/-- With all directories, and no entry that is marked as swapped. -/
structure Unswapped (mm : MmStruct) : Prop where
  directories : mm.HasDirectories
  entries : ∀ page : PageNumber, pteSwapped (mm.pte page.1) = false

variable {mm next walked : MmStruct}

theorem pte_pageOf (mm : MmStruct) (pgn : Addr) : mm.pte (pageOf pgn).1 = mm.pte pgn := by
  unfold pte
  rw [leaf_pageOf]

theorem maps_pageOf_iff (pgn : Addr) :
    mm.Maps (pageOf pgn) ↔
      pagingPagePresent (mm.pte pgn) = true ∧ pteSwapped (mm.pte pgn) = false := by
  unfold Maps
  rw [pte_pageOf]

theorem Unswapped.pte (hunswapped : mm.Unswapped) (pgn : Addr) :
    pteSwapped (mm.pte pgn) = false := by
  rw [← pte_pageOf]
  exact hunswapped.entries (pageOf pgn)

/-! ## Walks -/

theorem Walked.maps_iff (hwalked : mm.Walked walked) (page : PageNumber) :
    walked.Maps page ↔ mm.Maps page := by
  unfold Maps
  rw [hwalked.pte]

theorem Walked.unswapped (hwalked : mm.Walked walked) (hunswapped : mm.Unswapped) :
    walked.Unswapped where
  directories := hwalked.directories
  entries page := by
    rw [hwalked.pte]
    exact hunswapped.entries page

theorem Walked.listsResidents_iff (hwalked : mm.Walked walked) :
    walked.ListsResidents ↔ mm.ListsResidents := by
  unfold ListsResidents
  rw [hwalked.fifoPgn]
  exact Roster.lists_congr hwalked.maps_iff

/-! ## Ranges -/

/-- The pages that `vmap_page_range` maps. -/
def rangeNumbers (addr : Addr) (pgnum : Int) (frames : List Addr) : List PageNumber :=
  (rangePages addr 0 (frames.take pgnum.toNat)).map fun page => pageOf page.1

theorem maps_setFpn {pgn fpn : Addr} (hset : mm.pteSetFpn pgn fpn = .ok next)
    (page : PageNumber) : next.Maps page ↔ page = pageOf pgn ∨ mm.Maps page := by
  unfold Maps
  rw [pte_updatePte hset]
  by_cases hpage : page = pageOf pgn
  · simp [hpage, pagingPagePresent_fpnEntry, pteSwapped_fpnEntry]
  · simp [hpage]

theorem unswapped_setFpn {pgn fpn : Addr} (hset : mm.pteSetFpn pgn fpn = .ok next)
    (hunswapped : mm.Unswapped) : next.Unswapped where
  directories := (hunswapped.directories.updatePte hset).1
  entries page := by
    rw [pte_updatePte hset]
    split
    · exact pteSwapped_fpnEntry fpn (mm.leaf pgn)
    · exact hunswapped.entries page

/-- Mapping makes pages resident, and marks none as swapped. -/
theorem maps_mapPages (pages : List (Addr × Addr)) (hmap : mm.mapPages pages = .ok next)
    (hunswapped : mm.Unswapped) :
    next.Unswapped ∧ ∀ page, next.Maps page ↔
      page ∈ pages.map (fun page => pageOf page.1) ∨ mm.Maps page := by
  induction pages generalizing mm with
  | nil =>
      obtain rfl := Except.ok.inj hmap
      simpa using hunswapped
  | cons first rest ih =>
      obtain ⟨middle, hfirst, hrest⟩ := bind_eq_ok.mp hmap
      obtain ⟨mapped, hset, rfl⟩ := mapPage_eq_ok hfirst
      have hmapped := unswapped_setFpn hset hunswapped
      obtain ⟨hnext, hmaps⟩ := ih hrest ⟨hmapped.directories, hmapped.entries⟩
      refine ⟨hnext, fun page => ?_⟩
      rw [hmaps, List.map_cons, List.mem_cons, or_assoc, or_left_comm]
      exact or_congr_right (maps_setFpn hset page)

theorem vmapPageRange_eq_ok {addr : Addr} {pgnum : Int} {frames : List Addr} {retRg : VmRgStruct}
    (hmap : mm.vmapPageRange addr pgnum frames = .ok (next, retRg)) :
    mm.mapPages (rangePages addr 0 (frames.take pgnum.toNat)) = .ok next := by
  unfold vmapPageRange at hmap
  rw [mapFrames_eq] at hmap
  obtain ⟨mapped, hmapped, hpair⟩ := map_eq_ok.mp hmap
  obtain ⟨rfl, -⟩ := Prod.mk.inj hpair
  simpa using hmapped

/-- A range keeps the roster exactly when its pages are distinct and none was resident. -/
theorem listsResidents_vmapPageRange {addr : Addr} {pgnum : Int} {frames : List Addr}
    {retRg : VmRgStruct} (hunswapped : mm.Unswapped) (hlists : mm.ListsResidents)
    (hmap : mm.vmapPageRange addr pgnum frames = .ok (next, retRg)) :
    next.ListsResidents ↔ (rangeNumbers addr pgnum frames).Nodup ∧
      ∀ page ∈ rangeNumbers addr pgnum frames, ¬ mm.Maps page := by
  have hpages := vmapPageRange_eq_ok hmap
  obtain ⟨-, hmaps⟩ := maps_mapPages _ hpages hunswapped
  have hlist : next.fifoPgn.map pageOf =
      (rangeNumbers addr pgnum frames).reverse ++ mm.fifoPgn.map pageOf := by
    simp [fifoPgn_mapPages _ hpages, rangeNumbers]
  unfold ListsResidents
  rw [hlist, Roster.lists_append_iff hlists, List.nodup_reverse]
  · simp
  · intro page
    rw [hmaps, List.mem_reverse]
    rfl

end MmStruct

namespace Krnl

variable {krnl after : Krnl Proc} {pgn : Addr} {fpn : Option Word32}

/-! ## Faults -/

theorem unswapped_getpage (hunswapped : krnl.mm.Unswapped)
    (hget : pgGetpage krnl pgn = .ok (fpn, after)) : after.mm.Unswapped := by
  have hcase := getPageCase hunswapped.directories pgn
  rw [hget] at hcase
  cases hcase with
  | present hpresent hwalked => exact hwalked.unswapped hunswapped
  | noVictim habsent hfifo hwalked => exact hwalked.unswapped hunswapped
  | noSlot habsent hpages hfifo hslots hwalked =>
      exact hwalked.unswapped ⟨hunswapped.directories, hunswapped.entries⟩
  | listed habsent hpages hfifo hslots hwalked =>
      exact hwalked.unswapped ⟨hunswapped.directories, hunswapped.entries⟩

/-- `pg_getpage` keeps the roster exactly when it takes no victim. -/
theorem listsResidents_getpage (hunswapped : krnl.mm.Unswapped)
    (hlists : krnl.mm.ListsResidents) (hget : pgGetpage krnl pgn = .ok (fpn, after)) :
    after.mm.ListsResidents ↔
      pagingPagePresent (krnl.mm.pte pgn) = true ∨ krnl.mm.fifoPgn.length < 2 := by
  have hcase := getPageCase hunswapped.directories pgn
  rw [hget] at hcase
  cases hcase with
  | present hpresent hwalked =>
      exact iff_of_true (hwalked.listsResidents_iff.mpr hlists) (Or.inl hpresent)
  | noVictim habsent hfifo hwalked =>
      refine iff_of_true (hwalked.listsResidents_iff.mpr hlists) (Or.inr ?_)
      simp [hfifo]
  | noSlot habsent hpages hfifo hslots hwalked =>
      have hpos := List.length_pos_of_ne_nil hpages
      refine iff_of_false ?_ ?_
      · rw [hwalked.listsResidents_iff]
        unfold MmStruct.ListsResidents at hlists
        rw [hfifo, List.map_append] at hlists
        exact Roster.not_lists_of_dropped hlists
      · simp [habsent, hfifo]
        omega
  | listed habsent hpages hfifo hslots hwalked =>
      have hpos := List.length_pos_of_ne_nil hpages
      refine iff_of_false ?_ ?_
      · rw [hwalked.listsResidents_iff]
        intro hlisted
        have hmaps := (hlisted.mem_iff (pageOf pgn)).mp (by simp)
        have hpresent := ((MmStruct.maps_pageOf_iff pgn).mp hmaps).1
        exact absurd (hpresent.symm.trans habsent) (by decide)
      · simp [habsent, hfifo]
        omega

end Krnl

section Bytes

variable {junk : Junk} {proc next : PagingProc Proc} {offset : Addr} {status : Int}

/-- Without an entry that is marked as swapped, `pgread` walks to the page at most. -/
theorem walked_pgread {source destination : Word32} (hunswapped : proc.krnl.mm.Unswapped)
    (hread : pgread junk proc source offset destination = .ok (status, next)) :
    proc.krnl.mm.Walked next.krnl.mm := by
  obtain ⟨base, hbase⟩ := reg_of_pgread hread
  obtain ⟨walked, hentry, hwalked⟩ :=
    hunswapped.directories.pteGetEntry (pagingPgn (base + offset))
  rw [pgread_eq junk destination hbase hentry] at hread
  simp only [hunswapped.pte, Bool.false_eq_true, if_false] at hread
  split at hread
  next hpresent =>
    have hdirectories : ({ proc with krnl := { proc.krnl with mm := walked } } :
        PagingProc Proc).krnl.mm.HasDirectories := hwalked.directories
    obtain ⟨-, -, again, hagain, hnext⟩ := pgreadByte_eq_ok hdirectories hread
    rw [hnext]
    exact hwalked.trans hagain
  next =>
    obtain ⟨-, rfl⟩ := Prod.mk.inj (Except.ok.inj hread)
    exact hwalked

theorem walked_pgwrite {data : Byte} {destination : Word32} (hunswapped : proc.krnl.mm.Unswapped)
    (hwrite : pgwrite junk proc data destination offset = .ok (status, next)) :
    proc.krnl.mm.Walked next.krnl.mm := by
  obtain ⟨base, hbase⟩ := reg_of_pgwrite hwrite
  obtain ⟨walked, hentry, hwalked⟩ :=
    hunswapped.directories.pteGetEntry (pagingPgn (base + offset))
  rw [pgwrite_eq junk data hbase hentry] at hwrite
  simp only [hunswapped.pte, Bool.false_eq_true, if_false] at hwrite
  split at hwrite
  next hpresent =>
    have hdirectories : ({ proc with krnl := { proc.krnl with mm := walked } } :
        PagingProc Proc).krnl.mm.HasDirectories := hwalked.directories
    obtain ⟨-, -, again, mram, hagain, hnext, -⟩ := pgwriteByte_eq_ok hdirectories hwrite
    rw [hnext]
    exact hwalked.trans hagain
  next =>
    obtain ⟨-, rfl⟩ := Prod.mk.inj (Except.ok.inj hwrite)
    exact hwalked

end Bytes

/-! ## Runs -/

/-- A call of one of the four functions, with the unassigned variables of a faulting one. -/
inductive PageListCall where
  | mapRange (addr : Addr) (pgnum : Int) (frames : List Addr)
  | paging (junk : Junk) (call : PagingCall)

namespace PageListCall

/-- The state after a call. -/
def run (proc : PagingProc Proc) : PageListCall → Except Fault (PagingProc Proc)
  | mapRange addr pgnum frames =>
      (proc.krnl.mm.vmapPageRange addr pgnum frames).map fun (mm, _) =>
        { proc with krnl := { proc.krnl with mm := mm } }
  | paging junk call => call.run junk proc

/-- A call that completes leads to the next state. -/
def step (proc : PagingProc Proc) (call : PageListCall) : Option (PagingProc Proc) :=
  (call.run proc).toOption

/-- A range has to consist of distinct pages that are not resident, and `pg_getpage` must find
the page present or no two pages on the list. -/
def KeepsRoster (proc : PagingProc Proc) : PageListCall → Prop
  | mapRange addr pgnum frames =>
      (MmStruct.rangeNumbers addr pgnum frames).Nodup ∧
        ∀ page ∈ MmStruct.rangeNumbers addr pgnum frames, ¬ proc.krnl.mm.Maps page
  | paging _ (.getpage pgn) =>
      pagingPagePresent (proc.krnl.mm.pte (pgn.signExtend 64)) = true ∨
        proc.krnl.mm.fifoPgn.length < 2
  | paging _ (.read ..) => True
  | paging _ (.write ..) => True

variable {proc next : PagingProc Proc} {call : PageListCall}

theorem run_mapRange {addr : Addr} {pgnum : Int} {frames : List Addr}
    (hrun : (mapRange addr pgnum frames).run proc = .ok next) :
    ∃ retRg, proc.krnl.mm.vmapPageRange addr pgnum frames = .ok (next.krnl.mm, retRg) := by
  obtain ⟨⟨mm, retRg⟩, hmap, rfl⟩ := map_eq_ok.mp hrun
  exact ⟨retRg, hmap⟩

theorem run_getpage {junk : Junk} {pgn : Word32}
    (hrun : (paging junk (.getpage pgn)).run proc = .ok next) :
    ∃ fpn, pgGetpage proc.krnl (pgn.signExtend 64) = .ok (fpn, next.krnl) := by
  obtain ⟨⟨fpn, krnl⟩, hget, rfl⟩ := map_eq_ok.mp hrun
  exact ⟨fpn, hget⟩

/-- `pgread` and `pgwrite` only walk. -/
theorem walked_of_byte {junk : Junk} {call : PagingCall} (hunswapped : proc.krnl.mm.Unswapped)
    (hrun : (paging junk call).run proc = .ok next) (hbyte : ∀ pgn, call ≠ .getpage pgn) :
    proc.krnl.mm.Walked next.krnl.mm := by
  cases call with
  | getpage pgn => exact absurd rfl (hbyte pgn)
  | read source offset destination =>
      obtain ⟨⟨status, final⟩, hread, rfl⟩ := map_eq_ok.mp hrun
      exact walked_pgread hunswapped hread
  | write data destination offset =>
      obtain ⟨⟨status, final⟩, hwrite, rfl⟩ := map_eq_ok.mp hrun
      exact walked_pgwrite hunswapped hwrite

/-- No call marks an entry as swapped. -/
theorem unswapped_run (hunswapped : proc.krnl.mm.Unswapped) (hrun : call.run proc = .ok next) :
    next.krnl.mm.Unswapped := by
  cases call with
  | mapRange addr pgnum frames =>
      obtain ⟨retRg, hmap⟩ := run_mapRange hrun
      exact (MmStruct.maps_mapPages _ (MmStruct.vmapPageRange_eq_ok hmap) hunswapped).1
  | paging junk call =>
      cases call with
      | getpage pgn =>
          obtain ⟨fpn, hget⟩ := run_getpage hrun
          exact Krnl.unswapped_getpage hunswapped hget
      | read source offset destination =>
          exact (walked_of_byte hunswapped hrun nofun).unswapped hunswapped
      | write data destination offset =>
          exact (walked_of_byte hunswapped hrun nofun).unswapped hunswapped

theorem listsResidents_run_iff (hunswapped : proc.krnl.mm.Unswapped)
    (hlists : proc.krnl.mm.ListsResidents) (hrun : call.run proc = .ok next) :
    next.krnl.mm.ListsResidents ↔ call.KeepsRoster proc := by
  cases call with
  | mapRange addr pgnum frames =>
      obtain ⟨retRg, hmap⟩ := run_mapRange hrun
      exact MmStruct.listsResidents_vmapPageRange hunswapped hlists hmap
  | paging junk call =>
      cases call with
      | getpage pgn =>
          obtain ⟨fpn, hget⟩ := run_getpage hrun
          exact Krnl.listsResidents_getpage hunswapped hlists hget
      | read source offset destination =>
          have hwalked := walked_of_byte hunswapped hrun nofun
          exact iff_of_true (hwalked.listsResidents_iff.mpr hlists) trivial
      | write data destination offset =>
          have hwalked := walked_of_byte hunswapped hrun nofun
          exact iff_of_true (hwalked.listsResidents_iff.mpr hlists) trivial

end PageListCall

/-! ## From the start -/

namespace MmStruct

/-- A fresh descriptor, with a table behind `pt` as well. -/
def startMm (garbage : ListEnd) (pt : TableIndex → Addr) : MmStruct :=
  { initMm garbage with pt := some pt }

theorem pte_startMm (garbage : ListEnd) (pt : TableIndex → Addr) (pgn : Addr) :
    (startMm garbage pt).pte pgn = 0 := by
  have hleaf : (startMm garbage pt).leaf pgn = 0 := leaf_initMm garbage pgn
  unfold MmStruct.pte
  rw [hleaf]
  rfl

theorem unswapped_startMm (garbage : ListEnd) (pt : TableIndex → Addr) :
    (startMm garbage pt).Unswapped where
  directories := ⟨rfl, rfl, rfl, rfl, rfl⟩
  entries page := by
    rw [pte_startMm]
    decide

theorem listsResidents_startMm (garbage : ListEnd) (pt : TableIndex → Addr) :
    (startMm garbage pt).ListsResidents := by
  apply Roster.lists_nil
  rintro page ⟨hpresent, -⟩
  rw [pte_startMm] at hpresent
  exact absurd hpresent (by decide)

end MmStruct

open PageListCall

/-- From a fresh descriptor on, the list is a roster of the resident pages exactly as long as
every range is of new pages and `pg_getpage` takes no victim. -/
theorem listsResidents_iff_keepsRoster (garbage : ListEnd) (pt : TableIndex → Addr)
    (proc : PagingProc Proc) (hstart : proc.krnl.mm = MmStruct.startMm garbage pt)
    (calls : List PageListCall) :
    (∀ target ∈ Runs.visited step proc calls, target.krnl.mm.ListsResidents) ↔
      ∀ move ∈ Runs.taken step proc calls, move.2.KeepsRoster move.1 := by
  refine Runs.visited_iff_taken (fun proc : PagingProc Proc => proc.krnl.mm.Unswapped)
    (fun proc => proc.krnl.mm.ListsResidents) (fun _ => True)
    (fun proc call => KeepsRoster proc call) ?_ ?_ (fun _ _ => trivial) ?_ ?_
  · intro proc call next _ hunswapped hstep
    exact unswapped_run hunswapped (Runs.toOption_eq_some_iff.mp hstep)
  · intro proc call next _ hunswapped hlists hstep
    exact listsResidents_run_iff hunswapped hlists (Runs.toOption_eq_some_iff.mp hstep)
  · rw [hstart]
    exact MmStruct.unswapped_startMm garbage pt
  · rw [hstart]
    exact MmStruct.listsResidents_startMm garbage pt

/-- A process with a fresh descriptor, two frames of RAM and one free slot. -/
def freshPaging : PagingProc Unit where
  regs _ := 0
  krnl := { sevens with mm := MmStruct.startMm .null fun _ => 0 }

/-- Pages 4 and 5 are mapped, and a byte of page 4 is read at an address of the access path. -/
def mapAndRead : List PageListCall :=
  [mapRange 0x4000 2 [0, 1], paging ⟨0, 0, 0⟩ (.read 0 0x405 1)]

theorem listsResidents_iff_keepsRoster_mapAndRead :
    ∃ final, Runs.run step freshPaging mapAndRead = some final ∧
      final.krnl.mm.fifoPgn = [5, 4] ∧ final.krnl.mm.ListsResidents := by
  have hcompletes : (Runs.run step freshPaging mapAndRead).map
      (fun final => final.krnl.mm.fifoPgn) = some [5, 4] := by decide +kernel
  obtain ⟨final, hrun, hfifo⟩ := Option.map_eq_some_iff.mp hcompletes
  refine ⟨final, hrun, hfifo, ?_⟩
  refine (listsResidents_iff_keepsRoster .null (fun _ => 0) freshPaging rfl mapAndRead).mpr ?_
    final (Runs.mem_visited_iff.mpr ⟨mapAndRead, List.prefix_rfl, hrun⟩)
  have hrange : (mapRange 0x4000 2 [0, 1]).KeepsRoster freshPaging := by
    refine ⟨by decide +kernel, fun page _ hmaps => ?_⟩
    have hpresent := hmaps.1
    change pagingPagePresent ((MmStruct.startMm .null fun _ => 0).pte page.1) = true at hpresent
    rw [MmStruct.pte_startMm] at hpresent
    exact absurd hpresent (by decide)
  intro move hmove
  rcases Runs.mem_taken_cons hmove with rfl | ⟨next, -, hmove⟩
  · exact hrange
  · rcases Runs.mem_taken_cons hmove with rfl | ⟨last, -, hmove⟩
    · trivial
    · cases hmove

/-- With both pages listed, `pg_getpage` of page 9 lists it, although it is not mapped. -/
theorem not_listsResidents_getpage :
    ∃ final, Runs.run step freshPaging
        [mapRange 0x4000 2 [0, 1], paging ⟨0, 0, 0⟩ (.getpage 9)] = some final ∧
      final.krnl.mm.fifoPgn = [9, 5] ∧ pagingPagePresent (final.krnl.mm.pte 9) = false ∧
      pagingPagePresent (final.krnl.mm.pte 4) = true ∧ ¬ final.krnl.mm.ListsResidents := by
  have hcompletes : (Runs.run step freshPaging
      [mapRange 0x4000 2 [0, 1], paging ⟨0, 0, 0⟩ (.getpage 9)]).map
        (fun final => (final.krnl.mm.fifoPgn, pagingPagePresent (final.krnl.mm.pte 9),
          pagingPagePresent (final.krnl.mm.pte 4))) = some ([9, 5], false, true) := by
    decide +kernel
  obtain ⟨final, hrun, htriple⟩ := Option.map_eq_some_iff.mp hcompletes
  obtain ⟨hfifo, hpair⟩ := Prod.mk.inj htriple
  obtain ⟨habsent, hpresent⟩ := Prod.mk.inj hpair
  refine ⟨final, hrun, hfifo, habsent, hpresent, fun hlists => ?_⟩
  have hmaps := (hlists.mem_iff (pageOf 9)).mp (by simp [hfifo])
  exact absurd (((MmStruct.maps_pageOf_iff 9).mp hmaps).1.symm.trans habsent) (by decide)

end SimpleOs
