import SimpleOs.Foundation.Fifo
import SimpleOs.Foundation.Runs
import SimpleOs.Kernel.LibMem

/-! # Choosing a victim

`enlist_pgn_node` puts a page at the head of the list, and `find_victim_page` takes the one
at its end. With the newest page first the list is a queue, except that the last page can
never be taken: the walk to the end then has no node before it, whose link is cleared.
-/

namespace SimpleOs

namespace MmStruct

/-- `enlist_pgn_node` on the list of the descriptor. -/
def enlistPgnNode (mm : MmStruct) (pgn : Addr) : MmStruct :=
  { mm with fifoPgn := pgn :: mm.fifoPgn }

/-- The two calls on the list. -/
def listCall (mm : MmStruct) : Fifo.Request Addr → Except Fault (Option Addr × MmStruct)
  | .put pgn => .ok (none, mm.enlistPgnNode pgn)
  | .take => findVictimPage mm

/-- The listed pages, the one enlisted longest ago first. -/
def pageQueue (mm : MmStruct) : List Addr := mm.fifoPgn.reverse

variable {mm : MmStruct}

/-- With two pages or more the oldest one is taken. -/
theorem findVictimPage_append {pages : List Addr} {oldest : Addr} (hpages : pages ≠ [])
    (hfifo : mm.fifoPgn = pages ++ [oldest]) :
    findVictimPage mm = .ok (some oldest, { mm with fifoPgn := pages }) := by
  obtain ⟨first, rest, rfl⟩ := List.exists_cons_of_ne_nil hpages
  unfold findVictimPage
  cases rest with
  | nil => simp [hfifo]
  | cons second rest =>
      simp only [hfifo, List.cons_append]
      congr 2
      · simp
      · rw [← List.cons_append, ← List.cons_append, List.dropLast_concat]

/-- The ways that the search for a victim can go. -/
theorem findVictimPage_cases (mm : MmStruct) :
    (mm.fifoPgn = [] ∧ findVictimPage mm = .ok (none, mm)) ∨
      (∃ only, mm.fifoPgn = [only] ∧ findVictimPage mm = .error .nullDeref) ∨
      ∃ pages oldest, pages ≠ [] ∧ mm.fifoPgn = pages ++ [oldest] ∧
        findVictimPage mm = .ok (some oldest, { mm with fifoPgn := pages }) := by
  rcases List.eq_nil_or_concat mm.fifoPgn with hnil | ⟨pages, oldest, hfifo⟩
  · refine Or.inl ⟨hnil, ?_⟩
    simp [findVictimPage, hnil]
  · rw [List.concat_eq_append] at hfifo
    by_cases hpages : pages = []
    · subst hpages
      refine Or.inr (Or.inl ⟨oldest, hfifo, ?_⟩)
      simp [findVictimPage, hfifo]
    · exact Or.inr (Or.inr ⟨pages, oldest, hpages, hfifo, findVictimPage_append hpages hfifo⟩)

/-- A call is served like one to a queue, unless it asks for the only page. -/
theorem servesOne_iff (mm : MmStruct) (call : Fifo.Request Addr) :
    Fifo.ServesOne (fun mm call => (listCall mm call).toOption) pageQueue mm call ↔
      (call = .take → mm.pageQueue.length ≠ 1) := by
  unfold Fifo.ServesOne
  simp only [Runs.toOption_eq_some_iff]
  cases call with
  | put pgn =>
      refine iff_of_true ⟨mm.enlistPgnNode pgn, rfl, ?_⟩ nofun
      simp [pageQueue, enlistPgnNode, Fifo.serve]
  | take =>
      simp only [forall_const, pageQueue, List.length_reverse, Fifo.serve, listCall]
      rcases findVictimPage_cases mm with ⟨hnil, hvictim⟩ | ⟨only, hfifo, hvictim⟩ |
        ⟨pages, oldest, hpages, hfifo, hvictim⟩
      · refine iff_of_true ⟨mm, ?_, ?_⟩ ?_ <;> simp [hvictim, hnil]
      · simp [hvictim, hfifo]
      · refine iff_of_true ⟨{ mm with fifoPgn := pages }, ?_, ?_⟩ ?_
        · rw [hvictim]
          simp [hfifo]
        · simp [hfifo]
        · simp [hfifo, hpages]

/-- From an empty list, replacement is first in first out exactly as long as no victim is
asked for while one page is listed. -/
theorem victims_fifo_iff (mm : MmStruct) (hempty : mm.fifoPgn = [])
    (calls : List (Fifo.Request Addr)) :
    Fifo.Serves (fun mm call => (listCall mm call).toOption) pageQueue mm calls ↔
      ∀ done, done ++ [.take] <+: calls → (Fifo.after [] done).length ≠ 1 := by
  have hqueue : mm.pageQueue = [] := by simp [pageQueue, hempty]
  rw [Fifo.serves_iff _ _ (fun queue call => call = .take → queue.length ≠ 1) servesOne_iff,
    hqueue]
  constructor
  · intro hall done hprefix
    exact hall done .take hprefix rfl
  · rintro hall done call hprefix rfl
    exact hall done hprefix

/-- The older of two pages is taken. -/
theorem victims_fifo_iff_two :
    Fifo.Serves (fun mm call => (listCall mm call).toOption) pageQueue (initMm .null)
      [.put 4, .put 5, .take] := by
  rw [victims_fifo_iff (initMm .null) rfl]
  intro done hprefix
  rcases done with _ | ⟨first, _ | ⟨second, _ | ⟨third, rest⟩⟩⟩
  · simp at hprefix
  · simp at hprefix
  · obtain ⟨rfl, rfl⟩ : first = .put 4 ∧ second = .put 5 := by simpa using hprefix
    decide
  · simp at hprefix

/-- Asking for a victim while page 7 is listed alone writes through a `NULL` pointer. -/
theorem not_fifo_single :
    findVictimPage ((initMm .null).enlistPgnNode 7) = .error .nullDeref ∧
      ¬ Fifo.Serves (fun mm call => (listCall mm call).toOption) pageQueue (initMm .null)
        [.put 7, .take] := by
  refine ⟨rfl, ?_⟩
  rintro ⟨next, hput, -, after, htake, -⟩
  obtain rfl := (Prod.mk.inj (Option.some.inj hput)).2
  cases htake

end MmStruct

end SimpleOs
