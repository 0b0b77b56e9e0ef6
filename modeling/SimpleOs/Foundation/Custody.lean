import Mathlib.Data.Set.Card

/-! # Items that are either free or held

A free list, and parties that each hold at most one item. Items are in custody when each one
is either once on the free list or held by exactly one party. The places of an item count
both, so a step that takes items from some places and puts items in others keeps the custody
exactly when it takes and puts each item equally often.
-/

namespace Custody

variable {Party Item : Type*} [DecidableEq Item]

/-- Each known item is once on the list or held by exactly one party, not both. -/
def Kept (known : Set Item) (free : List Item) (holding : Party → Option Item) : Prop :=
  ∀ item ∈ known, (free.count item = 1 ∧ ∀ party, holding party ≠ some item) ∨
    (free.count item = 0 ∧ ∃! party, holding party = some item)

/-- On known items the two lists are the same up to order. -/
def Balanced (known : Set Item) (taken put : List Item) : Prop :=
  ∀ item ∈ known, taken.count item = put.count item

/-- How often an item is on the list or held. -/
noncomputable def places (free : List Item) (holding : Party → Option Item) (item : Item) : ℕ∞ :=
  free.count item + {party | holding party = some item}.encard

variable {known : Set Item} {free : List Item} {holding : Party → Option Item}

/-- In custody means in one place. -/
theorem kept_iff : Kept known free holding ↔ ∀ item ∈ known, places free holding item = 1 := by
  refine forall₂_congr fun item _ => ?_
  unfold places
  constructor
  · rintro (⟨hfree, hnobody⟩ | ⟨hfree, party, hparty, hunique⟩)
    · have hempty : {party | holding party = some item} = ∅ :=
        Set.eq_empty_iff_forall_notMem.mpr hnobody
      rw [hfree, hempty, Set.encard_empty, Nat.cast_one, add_zero]
    · have hsingle : {party | holding party = some item} = {party} :=
        Set.eq_singleton_iff_unique_mem.mpr ⟨hparty, hunique⟩
      rw [hfree, hsingle, Set.encard_singleton, Nat.cast_zero, zero_add]
  · intro hplaces
    rcases Nat.eq_zero_or_pos (free.count item) with hfree | hfree
    · rw [hfree, Nat.cast_zero, zero_add, Set.encard_eq_one] at hplaces
      obtain ⟨party, hsingle⟩ := hplaces
      obtain ⟨hparty, hunique⟩ := Set.eq_singleton_iff_unique_mem.mp hsingle
      exact Or.inr ⟨hfree, party, hparty, hunique⟩
    · have hle : (free.count item : ℕ∞) ≤ 1 := hplaces ▸ le_self_add
      have hone : free.count item = 1 := Nat.le_antisymm (by exact_mod_cast hle) hfree
      rw [hone, Nat.cast_one] at hplaces
      have hnone : {party | holding party = some item}.encard = 0 :=
        ENat.add_right_injective_of_ne_top ENat.one_ne_top (hplaces.trans (add_zero 1).symm)
      rw [Set.encard_eq_zero] at hnone
      exact Or.inl ⟨hone, Set.eq_empty_iff_forall_notMem.mp hnone⟩

/-! ## Steps -/

/-- Taking the first items of the list. -/
theorem places_append (first rest : List Item) (holding : Party → Option Item) (item : Item) :
    places rest holding item + first.count item = places (first ++ rest) holding item := by
  unfold places
  rw [List.count_append, Nat.cast_add, add_right_comm, add_comm (first.count item : ℕ∞)]

/-- The holders of an item, one of them set apart. -/
theorem encard_holders (holding : Party → Option Item) (party : Party) (item : Item) :
    {other | holding other = some item}.encard =
      {other | other ≠ party ∧ holding other = some item}.encard +
        (holding party).toList.count item := by
  by_cases hparty : holding party = some item
  · have hinsert : {other | holding other = some item} =
        insert party {other | other ≠ party ∧ holding other = some item} := by
      ext other
      by_cases hother : other = party
      · simp [hother, hparty]
      · simp [hother]
    rw [hinsert, Set.encard_insert_of_notMem (by simp), hparty]
    simp
  · have hsame : {other | holding other = some item} =
        {other | other ≠ party ∧ holding other = some item} := by
      ext other
      refine ⟨fun hother => ⟨?_, hother⟩, fun hother => hother.2⟩
      rintro rfl
      exact hparty hother
    have hnone : (holding party).toList.count item = 0 := by
      rw [List.count_eq_zero, Option.mem_toList]
      exact hparty
    rw [← hsame, hnone, Nat.cast_zero, add_zero]

/-- A party puts down what it holds and takes up something else. -/
theorem places_update [DecidableEq Party] (free : List Item) (holding : Party → Option Item)
    (party : Party) (slot : Option Item) (item : Item) :
    places free (Function.update holding party slot) item + (holding party).toList.count item =
      places free holding item + slot.toList.count item := by
  have hothers : {other | other ≠ party ∧ Function.update holding party slot other = some item} =
      {other | other ≠ party ∧ holding other = some item} := by
    ext other
    refine and_congr_right fun hne => ?_
    rw [Function.update_of_ne hne]
  unfold places
  rw [encard_holders (Function.update holding party slot) party item,
    encard_holders holding party item, hothers, Function.update_self]
  ac_rfl

/-- Taking from some places and putting in others keeps the custody when it balances. -/
theorem kept_iff_balanced {free' : List Item} {holding' : Party → Option Item}
    {taken put : List Item} (hkept : Kept known free holding)
    (hstep : ∀ item, places free' holding' item + taken.count item =
      places free holding item + put.count item) :
    Kept known free' holding' ↔ Balanced known taken put := by
  rw [kept_iff]
  refine forall₂_congr fun item hitem => ?_
  have hitemStep := hstep item
  rw [kept_iff.mp hkept item hitem] at hitemStep
  constructor
  · intro hplaces
    rw [hplaces] at hitemStep
    exact_mod_cast ENat.add_right_injective_of_ne_top ENat.one_ne_top hitemStep
  · intro hbalanced
    rw [hbalanced] at hitemStep
    exact ENat.add_left_injective_of_ne_top (ENat.natCast_ne_top _) hitemStep

/-- A known item that is taken has to be put. -/
theorem Balanced.mem_put {taken put : List Item} {item : Item}
    (hbalanced : Balanced known taken put) (hitem : item ∈ known) (htaken : item ∈ taken) :
    item ∈ put := by
  rw [← List.count_pos_iff] at htaken ⊢
  exact hbalanced item hitem ▸ htaken

/-- Where nothing is put, nothing known may be taken. -/
theorem balanced_nil_iff {taken : List Item} :
    Balanced known taken [] ↔ ∀ item ∈ taken, item ∉ known := by
  constructor
  · intro hbalanced item htaken hitem
    exact List.not_mem_nil (hbalanced.mem_put hitem htaken)
  · intro hunknown item hitem
    rw [List.count_nil, List.count_eq_zero]
    exact fun htaken => hunknown item htaken hitem

end Custody
