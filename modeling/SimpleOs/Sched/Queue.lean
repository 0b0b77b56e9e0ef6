import Mathlib.Data.List.ReduceOption
import SimpleOs.Foundation.SlotArray

/-! # The array queue of processes

`struct queue_t` holds at most `MAX_QUEUE_SIZE` process pointers in an array and
their number. The functions of `queue.c` are given first as they run on the array.
A queue that starts zeroed keeps its used slots filled and its other slots `NULL`;
`ProcQueue` carries that fact, and on it the functions are list operations.
-/

namespace SimpleOs

variable {Proc : Type}

/-- `MAX_QUEUE_SIZE` -/
def maxQueueSize : Nat := 50

/-- `struct queue_t`, with `none` for a `NULL` process pointer. -/
structure QueueT (Proc : Type) where
  proc : Vector (Option Proc) maxQueueSize
  size : Nat

namespace QueueT

/-- A zero-initialised queue. -/
def zero : QueueT Proc where
  proc := Vector.replicate maxQueueSize none
  size := 0

def empty (q : QueueT Proc) : Bool := q.size == 0

/-- `enqueue`. A `NULL` process and a full queue leave the queue as it is. -/
def enqueue (q : QueueT Proc) : Option Proc → QueueT Proc
  | none => q
  | some proc =>
      if q.size ≥ maxQueueSize then q
      else
        { proc := q.proc.setIfInBounds q.size (some proc)
          size := q.size + 1 }

/-- `dequeue`: take the first slot, move the others down, clear the freed slot. -/
def dequeue (q : QueueT Proc) : Option Proc × QueueT Proc :=
  if q.empty then (none, q)
  else
    (q.proc[0]?.join,
      { proc := (SlotArray.shiftDown q.proc 0 (q.size - 1)).setIfInBounds (q.size - 1) none
        size := q.size - 1 })

/-- The search loop of `purgequeue` for the first slot holding the process. -/
def findSlot [DecidableEq Proc] (q : QueueT Proc) (proc : Proc) : Option Nat :=
  (List.range q.size).find? fun i => q.proc[i]?.join = some proc

def purgequeue [DecidableEq Proc] (q : QueueT Proc) : Option Proc → Option Proc × QueueT Proc
  | none => (none, q)
  | some proc =>
      match q.findSlot proc with
      | none => (none, q)
      | some idx =>
          (q.proc[idx]?.join,
            { proc := (SlotArray.shiftDown q.proc idx (q.size - 1 - idx)).setIfInBounds
                (q.size - 1) none
              size := q.size - 1 })

/-- The processes in the array, front first. -/
def items (q : QueueT Proc) : List Proc := q.proc.toList.reduceOption

/-- The used slots are filled, the others are `NULL`, and `size` counts the used ones. -/
def Wf (q : QueueT Proc) : Prop := q.size = q.items.length ∧ SlotArray.Holds q.proc q.items

theorem items_of_holds {slots : Vector (Option Proc) maxQueueSize} {procs : List Proc}
    (hholds : SlotArray.Holds slots procs) : slots.toList.reduceOption = procs := by
  have hslots : slots.toList =
      procs.map some ++ List.replicate (maxQueueSize - procs.length) none := by
    apply List.ext_getElem?
    intro index
    rw [Vector.getElem?_toList, List.getElem?_append, List.length_map]
    by_cases hindex : index < maxQueueSize
    · rw [hholds.2 index hindex]
      by_cases hused : index < procs.length
      · simp [hused]
      · rw [if_neg hused, List.getElem?_replicate, if_pos (by omega),
          List.getElem?_eq_none (Nat.le_of_not_lt hused)]
    · have hlength := hholds.1
      rw [Vector.getElem?_eq_none (Nat.le_of_not_lt hindex), if_neg (by omega),
        List.getElem?_eq_none (by rw [List.length_replicate]; omega)]
  rw [hslots, List.reduceOption_append, List.reduceOption_replicate_none, List.append_nil]
  simp [List.reduceOption]

theorem wf_of_holds {q : QueueT Proc} {procs : List Proc} (hsize : q.size = procs.length)
    (hholds : SlotArray.Holds q.proc procs) : q.Wf ∧ q.items = procs := by
  have hitems : q.items = procs := items_of_holds hholds
  exact ⟨⟨by rw [hitems, hsize], by rw [hitems]; exact hholds⟩, hitems⟩

theorem zero_wf : (zero : QueueT Proc).Wf ∧ (zero : QueueT Proc).items = [] :=
  wf_of_holds rfl SlotArray.holds_replicate_none

theorem Wf.items_length_le {q : QueueT Proc} (hwf : q.Wf) : q.items.length ≤ maxQueueSize :=
  hwf.2.1

theorem Wf.empty_iff {q : QueueT Proc} (hwf : q.Wf) : q.empty = true ↔ q.items = [] := by
  rw [empty, beq_iff_eq, hwf.1, List.length_eq_zero_iff]

/-- `enqueue` appends at the back while there is room and otherwise does nothing. -/
theorem Wf.enqueue {q : QueueT Proc} (hwf : q.Wf) (proc : Proc) :
    (q.enqueue (some proc)).Wf ∧ (q.enqueue (some proc)).items =
      if q.items.length < maxQueueSize then q.items ++ [proc] else q.items := by
  have hsize := hwf.1
  unfold QueueT.enqueue
  by_cases hfull : q.size ≥ maxQueueSize
  · simp only [if_pos hfull, if_neg (by omega : ¬ q.items.length < maxQueueSize)]
    exact ⟨hwf, trivial⟩
  · have hroom : q.items.length < maxQueueSize := by omega
    simp only [if_neg hfull, if_pos hroom]
    have hpush := hwf.2.push hroom proc
    rw [← hsize] at hpush
    exact wf_of_holds (by rw [List.length_append, hsize]; rfl) hpush

/-- `dequeue` takes the front and keeps the order of the rest. -/
theorem Wf.dequeue {q : QueueT Proc} (hwf : q.Wf) :
    q.dequeue.1 = q.items.head? ∧ q.dequeue.2.Wf ∧ q.dequeue.2.items = q.items.tail := by
  have hsize := hwf.1
  unfold QueueT.dequeue
  by_cases hempty : q.empty = true
  · have hnil := hwf.empty_iff.mp hempty
    simp only [if_pos hempty]
    exact ⟨by rw [hnil]; rfl, hwf, by rw [hnil]; rfl⟩
  · have hnonempty : q.items ≠ [] := fun hnil => hempty (hwf.empty_iff.mpr hnil)
    have hpos : 0 < q.items.length := List.length_pos_of_ne_nil hnonempty
    simp only [if_neg hempty]
    refine ⟨by rw [hwf.2.getElem?_join, List.head?_eq_getElem?], ?_⟩
    have herase := hwf.2.eraseIdx hpos
    rw [List.eraseIdx_zero, Nat.sub_zero, ← hsize] at herase
    exact wf_of_holds (by rw [List.length_tail, hsize]) herase

end QueueT

/-- A process queue whose array is in step with its size, as every queue that starts
zeroed is. -/
def ProcQueue (Proc : Type) : Type := { q : QueueT Proc // q.Wf }

namespace ProcQueue

/-- The processes waiting in the queue, front first. -/
def items (q : ProcQueue Proc) : List Proc := q.1.items

def zero : ProcQueue Proc := ⟨QueueT.zero, QueueT.zero_wf.1⟩

def size (q : ProcQueue Proc) : Nat := q.1.size

def empty (q : ProcQueue Proc) : Bool := q.1.empty

def enqueue (q : ProcQueue Proc) (proc : Proc) : ProcQueue Proc :=
  ⟨q.1.enqueue (some proc), (q.2.enqueue proc).1⟩

def dequeue (q : ProcQueue Proc) : Option Proc × ProcQueue Proc :=
  (q.1.dequeue.1, ⟨q.1.dequeue.2, q.2.dequeue.2.1⟩)

@[simp] theorem items_zero : (zero : ProcQueue Proc).items = [] := QueueT.zero_wf.2

@[simp] theorem size_eq (q : ProcQueue Proc) : q.size = q.items.length := q.2.1

theorem items_length_le (q : ProcQueue Proc) : q.items.length ≤ maxQueueSize :=
  q.2.items_length_le

theorem empty_iff (q : ProcQueue Proc) : q.empty = true ↔ q.items = [] :=
  q.2.empty_iff

theorem empty_eq_false_iff (q : ProcQueue Proc) : q.empty = false ↔ q.items ≠ [] := by
  rw [← Bool.not_eq_true, empty_iff]

theorem items_enqueue (q : ProcQueue Proc) (proc : Proc) :
    (q.enqueue proc).items =
      if q.items.length < maxQueueSize then q.items ++ [proc] else q.items :=
  (q.2.enqueue proc).2

theorem items_enqueue_of_lt {q : ProcQueue Proc} (hroom : q.items.length < maxQueueSize)
    (proc : Proc) : (q.enqueue proc).items = q.items ++ [proc] := by
  rw [items_enqueue, if_pos hroom]

theorem mem_enqueue {q : ProcQueue Proc} {proc other : Proc}
    (hmem : other ∈ (q.enqueue proc).items) : other ∈ q.items ∨ other = proc := by
  rw [items_enqueue] at hmem
  split at hmem
  · rcases List.mem_append.mp hmem with hold | hnew
    · exact Or.inl hold
    · exact Or.inr (List.mem_singleton.mp hnew)
  · exact Or.inl hmem

@[simp] theorem dequeue_fst (q : ProcQueue Proc) : q.dequeue.1 = q.items.head? := q.2.dequeue.1

@[simp] theorem items_dequeue (q : ProcQueue Proc) : q.dequeue.2.items = q.items.tail :=
  q.2.dequeue.2.2

end ProcQueue

end SimpleOs
