import SimpleOs.Foundation.Replies
import SimpleOs.Sched.Queue

/-! # The array queue as a bounded queue

Any sequence of calls on a zeroed `struct queue_t` is answered as by a list of at most
`MAX_QUEUE_SIZE` processes, which `enqueue` extends at its end, `dequeue` takes the front
of and `purgequeue` takes the first occurrence of a process out of.
-/

namespace SimpleOs

variable {Proc : Type} [DecidableEq Proc]

/-- A function of `queue.c`, with `none` for a `NULL` process. -/
inductive QueueOp (Proc : Type) where
  | enqueue (proc : Option Proc)
  | dequeue
  | purgequeue (proc : Option Proc)

/-- A call, which passes the queue or a `NULL` pointer. -/
structure QueueCall (Proc : Type) where
  passed : Bool
  op : QueueOp Proc

namespace QueueT

/-- The functions through a pointer to the queue. On a `NULL` pointer they return at once. -/
def callThrough : Option (QueueT Proc) → QueueOp Proc → Option Proc × Option (QueueT Proc)
  | none, _ => (none, none)
  | some q, .enqueue proc => (none, some (q.enqueue proc))
  | some q, .dequeue => (q.dequeue.1, some q.dequeue.2)
  | some q, .purgequeue proc => ((q.purgequeue proc).1, some (q.purgequeue proc).2)

/-- What a call returns, and the queue after it. -/
def perform (q : QueueT Proc) (call : QueueCall Proc) : Option Proc × QueueT Proc :=
  let (result, target) := callThrough (if call.passed then some q else none) call.op
  (result, target.getD q)

/-- The queue stands for the list: its first `size` slots hold the processes in order, and
the others are `NULL`. -/
structure Represents (q : QueueT Proc) (procs : List Proc) : Prop where
  size_eq : q.size = procs.length
  size_le : q.size ≤ maxQueueSize
  filled : ∀ index, index < q.size → q.proc[index]? = some procs[index]?
  vacant : ∀ index, q.size ≤ index → index < maxQueueSize → q.proc[index]? = some none

/-- In the branches of `dequeue` and `purgequeue` that lower it, `size` is above 0. -/
def LowersAboveZero (q : QueueT Proc) : Prop :=
  (q.empty = false → 0 < q.size) ∧ ∀ proc index, q.findSlot proc = some index → 0 < q.size

theorem lowersAboveZero (q : QueueT Proc) : q.LowersAboveZero := by
  refine ⟨?_, ?_⟩
  · intro hfilled
    rw [empty, beq_eq_false_iff_ne] at hfilled
    exact Nat.pos_of_ne_zero hfilled
  · intro proc index hfound
    have hindex := List.mem_range.mp (List.mem_of_find?_eq_some hfound)
    omega

end QueueT

/-- The call on a list of at most `MAX_QUEUE_SIZE` processes. -/
def fifoCall (procs : List Proc) (call : QueueCall Proc) : Option Proc × List Proc :=
  if call.passed then
    match call.op with
    | .enqueue none => (none, procs)
    | .enqueue (some proc) =>
        (none, if procs.length < maxQueueSize then procs ++ [proc] else procs)
    | .dequeue => (procs.head?, procs.tail)
    | .purgequeue none => (none, procs)
    | .purgequeue (some proc) =>
        if proc ∈ procs then (some proc, procs.erase proc) else (none, procs)
  else (none, procs)

namespace QueueT

variable {q : QueueT Proc} {procs : List Proc}

omit [DecidableEq Proc] in
theorem Represents.wf (hprocs : q.Represents procs) : q.Wf ∧ q.items = procs := by
  have hsize := hprocs.size_eq
  have hbound := hprocs.size_le
  refine wf_of_holds hsize ⟨by omega, fun index hindex => ?_⟩
  by_cases hused : index < q.size
  · exact hprocs.filled index hused
  · rw [hprocs.vacant index (Nat.le_of_not_lt hused) hindex,
      List.getElem?_eq_none (by omega)]

omit [DecidableEq Proc] in
theorem Wf.represents (hwf : q.Wf) (hitems : q.items = procs) : q.Represents procs := by
  subst hitems
  have hsize := hwf.1
  have hbound := hwf.items_length_le
  refine ⟨hsize, by omega, ?_, ?_⟩
  · intro index hindex
    exact hwf.2.2 index (by omega)
  · intro index hindex hcapacity
    rw [hwf.2.2 index hcapacity, List.getElem?_eq_none (by omega)]

omit [DecidableEq Proc] in
theorem Wf.slot_iff (hwf : q.Wf) (index : Nat) (proc : Proc) :
    (q.proc[index]?).join = some proc ↔ q.items[index]? = some proc := by
  rw [hwf.2.getElem?_join]

omit [DecidableEq Proc] in
theorem Wf.slot_of_split (hwf : q.Wf) {proc : Proc} {before after : List Proc}
    (hitems : q.items = before ++ proc :: after) :
    (q.proc[before.length]?).join = some proc := by
  rw [hwf.slot_iff, hitems, List.getElem?_append_right (Nat.le_refl _), Nat.sub_self]
  rfl

theorem Wf.findSlot_eq_none (hwf : q.Wf) {proc : Proc} (hnot : proc ∉ q.items) :
    q.findSlot proc = none := by
  apply List.find?_eq_none.mpr
  intro index _ hfound
  rw [decide_eq_true_eq, hwf.slot_iff] at hfound
  exact hnot (List.mem_of_getElem? hfound)

/-- The search loop stops at the first occurrence of the process. -/
theorem Wf.findSlot_eq_some (hwf : q.Wf) {proc : Proc} {before after : List Proc}
    (hitems : q.items = before ++ proc :: after) (hbefore : proc ∉ before) :
    q.findSlot proc = some before.length := by
  have hsize := hwf.1
  apply List.find?_range_eq_some.mpr
  refine ⟨?_, ?_, ?_⟩
  · rw [decide_eq_true_eq]
    exact hwf.slot_of_split hitems
  · rw [hitems, List.length_append, List.length_cons] at hsize
    exact List.mem_range.mpr (by omega)
  · intro index hindex
    rw [Bool.not_eq_true', decide_eq_false_iff_not, hwf.slot_iff, hitems,
      List.getElem?_append_left hindex]
    intro hearlier
    exact hbefore (List.mem_of_getElem? hearlier)

/-- `purgequeue` takes out the first occurrence of the process and keeps the order of the
rest. -/
theorem Wf.purgequeue (hwf : q.Wf) (proc : Proc) :
    (q.purgequeue (some proc)).1 = (if proc ∈ q.items then some proc else none) ∧
      (q.purgequeue (some proc)).2.Wf ∧
      (q.purgequeue (some proc)).2.items = q.items.erase proc := by
  have hsize := hwf.1
  unfold QueueT.purgequeue
  by_cases hmem : proc ∈ q.items
  · obtain ⟨before, after, hitems, hbefore⟩ := List.eq_append_cons_of_mem hmem
    have hidx : before.length < q.items.length := by
      rw [hitems, List.length_append, List.length_cons]
      omega
    have herase : q.items.erase proc = q.items.eraseIdx before.length := by
      rw [hitems, List.erase_append_right _ hbefore, List.erase_cons_head,
        List.eraseIdx_append_of_length_le (Nat.le_refl _), Nat.sub_self, List.eraseIdx_cons_zero]
    have hholds := hwf.2.eraseIdx hidx
    rw [← hsize] at hholds
    simp only [hwf.findSlot_eq_some hitems hbefore, if_pos hmem]
    refine ⟨hwf.slot_of_split hitems, ?_⟩
    rw [herase]
    exact wf_of_holds (by rw [List.length_eraseIdx_of_lt hidx, hsize]) hholds
  · simp only [hwf.findSlot_eq_none hmem, if_neg hmem]
    exact ⟨trivial, hwf, (List.erase_of_not_mem hmem).symm⟩

/-- Each call is answered as by the list, and the queue then stands for the list after it. -/
theorem perform_fifoCall (hprocs : q.Represents procs) (call : QueueCall Proc) :
    (q.perform call).1 = (fifoCall procs call).1 ∧
      (q.perform call).2.Represents (fifoCall procs call).2 := by
  obtain ⟨hwf, rfl⟩ := hprocs.wf
  obtain ⟨passed, op⟩ := call
  cases passed with
  | false => exact ⟨rfl, hprocs⟩
  | true =>
      cases op with
      | enqueue proc =>
          cases proc with
          | none => exact ⟨rfl, hprocs⟩
          | some proc =>
              obtain ⟨hnext, hitems⟩ := hwf.enqueue proc
              exact ⟨rfl, hnext.represents hitems⟩
      | dequeue =>
          obtain ⟨hfront, hnext, hitems⟩ := hwf.dequeue
          exact ⟨hfront, hnext.represents hitems⟩
      | purgequeue proc =>
          cases proc with
          | none => exact ⟨rfl, hprocs⟩
          | some proc =>
              obtain ⟨hremoved, hnext, hitems⟩ := hwf.purgequeue proc
              have hrest := hnext.represents hitems
              by_cases hmem : proc ∈ q.items
              · rw [if_pos hmem] at hremoved
                have hcall : fifoCall q.items { passed := true, op := .purgequeue (some proc) } =
                    (some proc, q.items.erase proc) := if_pos hmem
                rw [hcall]
                exact ⟨hremoved, hrest⟩
              · rw [if_neg hmem] at hremoved
                rw [List.erase_of_not_mem hmem] at hrest
                have hcall : fifoCall q.items { passed := true, op := .purgequeue (some proc) } =
                    (none, q.items) := if_neg hmem
                rw [hcall]
                exact ⟨hremoved, hrest⟩

omit [DecidableEq Proc] in
theorem zero_represents : (zero : QueueT Proc).Represents [] :=
  zero_wf.1.represents zero_wf.2

/-- Any sequence of calls on a zeroed queue is answered as by the bounded list, and leaves
the queue standing for that list. -/
theorem zero_refines_fifo (calls : List (QueueCall Proc)) :
    Replies.replies perform zero calls = Replies.replies fifoCall [] calls ∧
      (Replies.after perform zero calls).Represents (Replies.after fifoCall [] calls) ∧
      (Replies.after perform zero calls).LowersAboveZero := by
  have hrefines : Replies.replies perform zero calls = Replies.replies fifoCall [] calls ∧
      (Replies.after perform zero calls).Represents (Replies.after fifoCall [] calls) :=
    Replies.replies_eq_of_related (fun _ _ call hprocs => perform_fifoCall hprocs call)
      zero_represents calls
  exact ⟨hrefines.1, hrefines.2, lowersAboveZero _⟩

end QueueT

end SimpleOs
