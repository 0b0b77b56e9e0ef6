import SimpleOs.Foundation.Runs
import SimpleOs.Memory.PageTable

/-! # Reading back page table entries

The writers refine a flat map from page numbers to entries. The reader does not: since
`init_mm` leaves `pt` a `NULL` pointer, the guard of `pte_get_entry` answers 0 for every
page. Reading back works exactly as long as there is nothing but 0 to read.
-/

namespace SimpleOs

/-- The calls that set an entry. -/
inductive PteCall where
  | setEntry (pgn : Addr) (pteVal : Word32)
  | setFpn (pgn fpn : Addr)
  | setSwap (pgn : Addr) (swptyp : Int) (swpoff : Addr)
  deriving DecidableEq

namespace PteCall

def pgn : PteCall → Addr
  | setEntry pgn _ => pgn
  | setFpn pgn _ => pgn
  | setSwap pgn _ _ => pgn

/-- The entry that the call leaves for its page. -/
def entry (pte : Addr) : PteCall → Addr
  | setEntry _ pteVal => pteVal.setWidth 64
  | setFpn _ fpn => fpnEntry fpn pte
  | setSwap _ swptyp swpoff => swapEntry swptyp swpoff pte

def run (mm : MmStruct) : PteCall → Except Fault MmStruct
  | setEntry pgn pteVal => mm.pteSetEntry pgn pteVal
  | setFpn pgn fpn => mm.pteSetFpn pgn fpn
  | setSwap pgn swptyp swpoff => mm.pteSetSwap pgn swptyp swpoff

theorem run_eq (mm : MmStruct) (call : PteCall) :
    call.run mm = mm.updatePte call.pgn fun pte => call.entry pte := by
  cases call <;> rfl

/-- The page numbers of the 57-bit address space. -/
def InRange (call : PteCall) : Prop := call.pgn.toNat < 2 ^ 45

instance (call : PteCall) : Decidable call.InRange :=
  inferInstanceAs (Decidable (call.pgn.toNat < 2 ^ 45))

end PteCall

/-- A descriptor and the entries that the most recent calls left. -/
structure Mapped where
  mm : MmStruct
  entries : Addr → Addr

namespace Mapped

def start (garbage : ListEnd) : Mapped where
  mm := initMm garbage
  entries _ := 0

def step (state : Mapped) (call : PteCall) : Option Mapped :=
  (call.run state.mm).toOption.map fun mm =>
    { mm := mm
      entries := Function.update state.entries call.pgn (call.entry (state.entries call.pgn)) }

/-- Every page reads back as the entry left for it. -/
def ReadsBack (state : Mapped) : Prop :=
  ∀ pgn : Addr, pgn.toNat < 2 ^ 45 →
    (state.mm.pteGetEntry pgn).1 = (state.entries pgn).setWidth 32

/-- The tables hold the flat map, but `pt` keeps the reader out. -/
structure Stored (state : Mapped) : Prop where
  pgd_some : ∃ pgd, state.mm.pgd = some pgd
  pt_none : state.mm.pt = none
  leaf_eq : ∀ pgn : Addr, pgn.toNat < 2 ^ 45 → state.mm.leaf pgn = state.entries pgn

variable {state next : Mapped} {call : PteCall}

theorem stored_start (garbage : ListEnd) : (start garbage).Stored where
  pgd_some := ⟨_, rfl⟩
  pt_none := rfl
  leaf_eq pgn _ := MmStruct.leaf_initMm garbage pgn

theorem step_eq_some (hstep : state.step call = some next) :
    state.mm.updatePte call.pgn (fun pte => call.entry pte) = .ok next.mm ∧
      next.entries =
        Function.update state.entries call.pgn (call.entry (state.entries call.pgn)) := by
  obtain ⟨mm, hmm, rfl⟩ := Option.map_eq_some_iff.mp hstep
  rw [Runs.toOption_eq_some_iff, PteCall.run_eq] at hmm
  exact ⟨hmm, rfl⟩

/-- Each writer refines the update of the flat map. -/
theorem Stored.step (hstored : state.Stored) (hrange : call.InRange)
    (hstep : state.step call = some next) : next.Stored := by
  obtain ⟨hupdate, hentries⟩ := step_eq_some hstep
  obtain ⟨pgd, -, hnext⟩ := MmStruct.updatePte_eq_ok hupdate
  refine { pgd_some := ?_, pt_none := ?_, leaf_eq := ?_ }
  · rw [hnext]
    exact ⟨_, rfl⟩
  · rw [hnext]
    exact hstored.pt_none
  · intro pgn hpgn
    rw [hentries]
    by_cases hsame : pgn = call.pgn
    · subst hsame
      rw [MmStruct.leaf_updatePte_self hupdate, Function.update_self, hstored.leaf_eq _ hpgn]
    · rw [MmStruct.leaf_updatePte_of_ne hupdate hrange hpgn hsame, Function.update_of_ne hsame,
        hstored.leaf_eq pgn hpgn]

theorem Stored.exists_step (hstored : state.Stored) (call : PteCall) :
    ∃ next, state.step call = some next := by
  obtain ⟨pgd, hpgd⟩ := hstored.pgd_some
  obtain ⟨mm, hmm⟩ := MmStruct.exists_updatePte hpgd call.pgn fun pte => call.entry pte
  refine ⟨_, Option.map_eq_some_iff.mpr ⟨mm, ?_, rfl⟩⟩
  rw [Runs.toOption_eq_some_iff, PteCall.run_eq]
  exact hmm

/-- Reading back amounts to having stored nothing but zeros. -/
theorem Stored.readsBack_iff (hstored : state.Stored) :
    state.ReadsBack ↔
      ∀ pgn : Addr, pgn.toNat < 2 ^ 45 → (state.entries pgn).setWidth 32 = 0#32 := by
  unfold ReadsBack
  simp only [MmStruct.pteGetEntry_of_pt hstored.pt_none]
  exact forall₂_congr fun pgn _ => eq_comm

/-- An entry with its present bit set is not 0. -/
theorem setWidth_ne_zero {pte : Addr} (hpresent : pte.getLsbD 31 = true) :
    pte.setWidth 32 ≠ 0#32 := by
  intro hzero
  have hbit : (pte.setWidth 32).getLsbD 31 = false := by
    rw [hzero]
    rfl
  rw [BitVec.getLsbD_setWidth, hpresent] at hbit
  cases hbit

/-- The only call that leaves the entry 0 is one that sets it to 0. -/
theorem entry_eq_zero_iff (pte : Addr) (call : PteCall) :
    (call.entry pte).setWidth 32 = 0#32 ↔ ∃ pgn, call = .setEntry pgn 0 := by
  cases call with
  | setEntry pgn pteVal =>
      simp [PteCall.entry, BitVec.setWidth_setWidth_of_le]
  | setFpn pgn fpn =>
      exact iff_of_false (setWidth_ne_zero (getLsbD_present_fpnEntry fpn pte))
        fun ⟨_, heq⟩ => by cases heq
  | setSwap pgn swptyp swpoff =>
      exact iff_of_false (setWidth_ne_zero (getLsbD_present_swapEntry swptyp swpoff pte))
        fun ⟨_, heq⟩ => by cases heq

/-- From a state that reads back, a call keeps this exactly when it sets an entry to 0. -/
theorem Stored.readsBack_step (hstored : state.Stored) (hrange : call.InRange)
    (hreads : state.ReadsBack) (hstep : state.step call = some next) :
    next.ReadsBack ↔ ∃ pgn, call = .setEntry pgn 0 := by
  have hzero := hstored.readsBack_iff.mp hreads
  rw [(hstored.step hrange hstep).readsBack_iff, (step_eq_some hstep).2]
  rw [← entry_eq_zero_iff (state.entries call.pgn) call]
  constructor
  · intro hall
    have hself := hall call.pgn hrange
    rwa [Function.update_self] at hself
  · intro hentry pgn hpgn
    by_cases hsame : pgn = call.pgn
    · subst hsame
      rw [Function.update_self]
      exact hentry
    · rw [Function.update_of_ne hsame]
      exact hzero pgn hpgn

/-- Entries read back in all states of a run exactly when the run only sets entries to 0. -/
theorem readsBack_iff_zero (garbage : ListEnd) (calls : List PteCall)
    (hrange : ∀ call ∈ calls, call.InRange) :
    (∀ state ∈ Runs.visited step (start garbage) calls, state.ReadsBack) ↔
      ∀ call ∈ calls, ∃ pgn, call = .setEntry pgn 0 := by
  have hstart : (start garbage).ReadsBack :=
    (stored_start garbage).readsBack_iff.mpr fun _ _ => rfl
  -- no call faults, so the calls of the run are all the given ones
  have hevents : (Runs.taken step (start garbage) calls).map Prod.snd = calls :=
    Runs.taken_events Stored PteCall.InRange
      (fun state call hcall hstored =>
        let ⟨next, hnext⟩ := hstored.exists_step call
        ⟨next, hnext, hstored.step hcall hnext⟩)
      hrange (stored_start garbage)
  rw [Runs.visited_iff_taken Stored ReadsBack PteCall.InRange
    (fun _ call => ∃ pgn, call = .setEntry pgn 0)
    (fun _ _ _ hcall hstored hnext => hstored.step hcall hnext)
    (fun _ _ _ hcall hstored hreads hnext => hstored.readsBack_step hcall hreads hnext)
    hrange (stored_start garbage) hstart]
  conv_rhs => rw [← hevents]
  simp only [List.forall_mem_map]

/-- Clearing two entries. -/
theorem readsBack_iff_zero_clear :
    ∃ state, Runs.run step (start .null) [.setEntry 5 0, .setEntry 7 0] = some state ∧
      state.ReadsBack := by
  have hcompletes : (Runs.run step (start .null) [.setEntry 5 0, .setEntry 7 0]).isSome = true := by
    decide +kernel
  obtain ⟨state, hrun⟩ := Option.isSome_iff_exists.mp hcompletes
  have hreads :=
    (readsBack_iff_zero .null [.setEntry 5 0, .setEntry 7 0] (by decide)).mpr (by simp)
  exact ⟨state, hrun, hreads state (Runs.mem_visited_iff.mpr ⟨_, List.prefix_rfl, hrun⟩)⟩

/-- A page mapped to frame 3 reads as absent. -/
theorem not_readsBack_mapped :
    ∃ state, Runs.run step (start .null) [.setFpn 5 3] = some state ∧
      state.entries 5 = 0x80000003 ∧ (state.mm.pteGetEntry 5).1 = 0 ∧ ¬ state.ReadsBack := by
  obtain ⟨state, hstep⟩ := (stored_start .null).exists_step (.setFpn 5 3)
  have hrun : Runs.run step (start .null) [.setFpn 5 3] = some state := by
    rw [Runs.run_cons, hstep]
    rfl
  have hrange : (PteCall.setFpn 5 3).InRange := by decide
  have hstored := (stored_start .null).step hrange hstep
  have hentry : state.entries 5 = 0x80000003 := by
    rw [(step_eq_some hstep).2]
    decide
  refine ⟨state, hrun, hentry, by rw [MmStruct.pteGetEntry_of_pt hstored.pt_none], ?_⟩
  intro hreads
  have hzero := hstored.readsBack_iff.mp hreads 5 (by decide)
  rw [hentry] at hzero
  exact absurd hzero (by decide)

end Mapped

end SimpleOs
