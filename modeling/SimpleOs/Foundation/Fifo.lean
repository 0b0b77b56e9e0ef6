import Mathlib.Data.List.Infix

/-! # First in, first out

A queue is put to at its end and taken from at its front. An implementation serves a
sequence of requests when every answer, and the queue it then stands for, are those of the
queue. Where the requests that it can serve are known from the queue alone, it serves a
sequence exactly when it can serve each request where it comes.
-/

namespace Fifo

variable {Item State : Type*}

inductive Request (Item : Type*) where
  | put (item : Item)
  | take
  deriving DecidableEq

/-- The answer to a request, and the queue after it. -/
def serve (queue : List Item) : Request Item → Option Item × List Item
  | .put item => (none, queue ++ [item])
  | .take => (queue.head?, queue.tail)

/-- The queue after some requests. -/
def after (queue : List Item) (requests : List (Request Item)) : List Item :=
  requests.foldl (fun queue request => (serve queue request).2) queue

theorem after_cons (queue : List Item) (request : Request Item) (rest : List (Request Item)) :
    after queue (request :: rest) = after (serve queue request).2 rest := rfl

variable (impl : State → Request Item → Option (Option Item × State))
  (queueOf : State → List Item)

/-- The implementation answers as the queue does, and then stands for the queue. -/
def ServesOne (state : State) (request : Request Item) : Prop :=
  ∃ next, impl state request = some ((serve (queueOf state) request).1, next) ∧
    queueOf next = (serve (queueOf state) request).2

/-- The implementation serves one request after the other. -/
def Serves (state : State) : List (Request Item) → Prop
  | [] => True
  | request :: rest =>
      ∃ next, impl state request = some ((serve (queueOf state) request).1, next) ∧
        queueOf next = (serve (queueOf state) request).2 ∧ Serves next rest

/-- Exact conditions lift from requests to sequences of requests. -/
theorem serves_iff (can : List Item → Request Item → Prop)
    (hone : ∀ state request,
      ServesOne impl queueOf state request ↔ can (queueOf state) request)
    (state : State) (requests : List (Request Item)) :
    Serves impl queueOf state requests ↔
      ∀ done request, done ++ [request] <+: requests →
        can (after (queueOf state) done) request := by
  induction requests generalizing state with
  | nil =>
      refine iff_of_true trivial fun done request hprefix => ?_
      simp at hprefix
  | cons first rest ih =>
      constructor
      · rintro ⟨next, himpl, hqueue, hrest⟩ done request hprefix
        cases done with
        | nil =>
            obtain ⟨rfl, -⟩ := List.cons_prefix_cons.mp hprefix
            exact (hone state request).mp ⟨next, himpl, hqueue⟩
        | cons head tail =>
            obtain ⟨rfl, htail⟩ := List.cons_prefix_cons.mp hprefix
            rw [after_cons, ← hqueue]
            exact (ih next).mp hrest tail request htail
      · intro hcan
        have hfirst : can (queueOf state) first :=
          hcan [] first (List.cons_prefix_cons.mpr ⟨rfl, List.nil_prefix⟩)
        obtain ⟨next, himpl, hqueue⟩ := (hone state first).mpr hfirst
        refine ⟨next, himpl, hqueue, (ih next).mpr fun done request hprefix => ?_⟩
        rw [hqueue, ← after_cons]
        exact hcan (first :: done) request (List.cons_prefix_cons.mpr ⟨rfl, hprefix⟩)

end Fifo
