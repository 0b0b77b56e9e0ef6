import Mathlib.Data.List.Rotate
import SimpleOs.Kernel.CallerSearch

/-! # The order that the search leaves

The search of a system call stops behind the first process with the pid. What it looked at is
then at the end of `running_list`, in the old order, so the list has been rotated; a search
that finds nothing has gone round once.
-/

namespace SimpleOs

variable {Proc : Type} (pidOf : Proc → Word32) (pid : Word32)

/-- The test of the search loop. -/
def hasPid (proc : Proc) : Bool := pidOf proc == pid

/-- How many processes the search moves to the end. -/
def searchMoves (procs : List Proc) : Nat :=
  match procs.findIdx? (hasPid pidOf pid) with
  | none => procs.length
  | some position => position + 1

variable {pidOf pid}

theorem searchMoves_cons_of_pos {proc : Proc} (hpid : hasPid pidOf pid proc = true)
    (rest : List Proc) : searchMoves pidOf pid (proc :: rest) = 1 := by
  unfold searchMoves
  rw [List.findIdx?_cons, hpid]
  rfl

theorem searchMoves_cons_of_neg {proc : Proc} (hpid : hasPid pidOf pid proc = false)
    (rest : List Proc) :
    searchMoves pidOf pid (proc :: rest) = 1 + searchMoves pidOf pid rest := by
  unfold searchMoves
  rw [List.findIdx?_cons, hpid]
  cases rest.findIdx? (hasPid pidOf pid) with
  | none => exact Nat.add_comm _ _
  | some position => exact Nat.add_comm _ _

/-- The search over the front of a list, behind which the processes already moved stand. -/
theorem searchPid_front (pidOf : Proc → Word32) (pid : Word32) (front : List Proc)
    {moved : List Proc} {list : ProcQueue Proc} (hitems : list.items = front ++ moved) :
    ∃ after, searchPid (fun proc => .ok (pidOf proc)) pid front.length list =
        .ok (front.find? (hasPid pidOf pid), after) ∧
      after.items = list.items.rotate (searchMoves pidOf pid front) := by
  induction front generalizing moved list with
  | nil => exact ⟨list, rfl, (List.rotate_zero _).symm⟩
  | cons proc rest ih =>
      rw [List.cons_append] at hitems
      have hrotated := items_rotate hitems
      have hone : (list.dequeue.2.enqueue proc).items = list.items.rotate 1 := by
        rw [hrotated, hitems, List.rotate_cons_succ, List.rotate_zero]
      rw [List.length_cons, searchPid_succ_of_cons hitems, ok_bind, List.find?_cons]
      cases hpid : hasPid pidOf pid proc with
      | true =>
          have heq : pidOf proc = pid := eq_of_beq hpid
          rw [if_pos heq, searchMoves_cons_of_pos hpid]
          exact ⟨_, rfl, hone⟩
      | false =>
          have hne : pidOf proc ≠ pid := ne_of_beq_false hpid
          rw [List.append_assoc] at hrotated
          obtain ⟨after, hsearch, hafter⟩ := ih hrotated
          rw [if_neg hne, searchMoves_cons_of_neg hpid]
          refine ⟨after, hsearch, ?_⟩
          rw [hafter, hone, List.rotate_rotate]

/-- The search finds the first process with the pid and rotates the list past it. -/
theorem findCaller_eq (pidOf : Proc → Word32) (pid : Word32) (krnl : Krnl Proc) :
    ∃ list : ProcQueue Proc, findCaller (fun proc => .ok (pidOf proc)) krnl pid =
        .ok (krnl.runningList.items.find? (hasPid pidOf pid), { krnl with runningList := list }) ∧
      list.items =
        krnl.runningList.items.rotate (searchMoves pidOf pid krnl.runningList.items) := by
  obtain ⟨list, hsearch, hlist⟩ :=
    searchPid_front pidOf pid krnl.runningList.items (List.append_nil _).symm
  refine ⟨list, ?_, hlist⟩
  unfold findCaller
  rw [ProcQueue.size_eq, hsearch]
  rfl

/-! ## The two handlers -/

/-- The caller is the first process with the pid, and the list is rotated past it; without
such a process the list is the same. -/
structure FoundInOrder (pidOf : Proc → Word32) (pid : Word32) (procs after : List Proc)
    (caller : Option Proc) : Prop where
  found_iff : caller.isSome = true ↔ ∃ proc ∈ procs, pidOf proc = pid
  first : ∀ proc, caller = some proc → ∃ position,
    procs[position]? = some proc ∧ pidOf proc = pid ∧
      (∀ earlier other, earlier < position → procs[earlier]? = some other → pidOf other ≠ pid) ∧
      after = procs.rotate (position + 1)
  unfound : caller = none → after = procs

theorem foundInOrder_search (pidOf : Proc → Word32) (pid : Word32) (procs : List Proc) :
    FoundInOrder pidOf pid procs (procs.rotate (searchMoves pidOf pid procs))
      (procs.find? (hasPid pidOf pid)) := by
  refine ⟨?_, ?_, ?_⟩
  · rw [List.find?_isSome]
    simp only [hasPid, beq_iff_eq]
  · intro proc hproc
    obtain ⟨hpid, position, hposition, hhere, hearlier⟩ :=
      List.find?_eq_some_iff_getElem.mp hproc
    have hidx : procs.findIdx? (hasPid pidOf pid) = some position := by
      apply List.findIdx?_eq_some_iff_getElem.mpr
      refine ⟨hposition, by rw [hhere]; exact hpid, ?_⟩
      intro earlier hlt
      have hnot := hearlier earlier hlt
      rw [Bool.not_eq_true'] at hnot
      rw [hnot]
      exact Bool.false_ne_true
    have hmoves : searchMoves pidOf pid procs = position + 1 := by
      unfold searchMoves
      rw [hidx]
    refine ⟨position, ?_, eq_of_beq hpid, ?_, by rw [hmoves]⟩
    · rw [List.getElem?_eq_getElem hposition, hhere]
    · intro earlier other hlt hother
      obtain ⟨hbound, rfl⟩ := List.getElem?_eq_some_iff.mp hother
      have hnot := hearlier earlier hlt
      rw [Bool.not_eq_true'] at hnot
      exact ne_of_beq_false hnot
  · intro hnone
    have hidx : procs.findIdx? (hasPid pidOf pid) = none :=
      List.findIdx?_eq_none_iff.mpr fun proc hmem =>
        Bool.not_eq_true _ |>.mp (List.find?_eq_none.mp hnone proc hmem)
    have hmoves : searchMoves pidOf pid procs = procs.length := by
      unfold searchMoves
      rw [hidx]
    rw [hmoves, List.rotate_length]

/-- Both handlers find the first process with the pid, and leave `running_list` rotated past
it, or as it was when there is none. -/
theorem handlers_search_in_order (pidOf : Proc → Word32) (pid : Word32) (krnl : Krnl Proc) :
    ∃ (caller : Option Proc) (list : ProcQueue Proc),
      FoundInOrder pidOf pid krnl.runningList.items list.items caller ∧
      findCaller (fun proc => .ok (pidOf proc)) krnl pid =
        .ok (caller, { krnl with runningList := list }) ∧
      sysXxxhandler (fun proc => .ok (pidOf proc)) krnl pid =
        .ok (if caller.isSome then 0 else -1, { krnl with runningList := list }) ∧
      ∀ (junk : Byte) (regs : ScRegs),
        (caller = none → sysMemmap (fun proc => .ok (pidOf proc)) junk krnl pid regs =
          .ok (-1, { krnl with runningList := list }, regs)) ∧
        ∀ status next after,
          sysMemmap (fun proc => .ok (pidOf proc)) junk krnl pid regs =
              .ok (status, next, after) →
            next.runningList = list ∧ status = if caller.isSome then 0 else -1 := by
  obtain ⟨list, hfind, hlist⟩ := findCaller_eq pidOf pid krnl
  refine ⟨krnl.runningList.items.find? (hasPid pidOf pid), list, ?_, hfind, ?_, ?_⟩
  · rw [hlist]
    exact foundInOrder_search pidOf pid _
  · unfold sysXxxhandler
    rw [hfind, ok_bind]
    cases krnl.runningList.items.find? (hasPid pidOf pid) with
    | none => rfl
    | some proc => rfl
  · intro junk regs
    unfold sysMemmap
    rw [hfind, ok_bind]
    cases krnl.runningList.items.find? (hasPid pidOf pid) with
    | none =>
        refine ⟨fun _ => rfl, fun status next after hcall => ?_⟩
        cases hcall
        exact ⟨rfl, rfl⟩
    | some proc =>
        refine ⟨fun hnone => (by cases hnone), fun status next after hcall => ?_⟩
        obtain ⟨⟨done, regs⟩, hop, hdone⟩ := bind_eq_ok.mp hcall
        cases hdone
        exact ⟨memop_runningList hop, rfl⟩

end SimpleOs
