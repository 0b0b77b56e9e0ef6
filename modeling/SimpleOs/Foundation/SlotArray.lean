import Mathlib.Data.List.Basic

/-! # Lists held in fixed arrays of optional slots

A list of at most `capacity` items is held in an array when slot `i` contains item
`i` and every later slot is vacant. Appending writes the first vacant slot. Removing
an item moves the slots behind it one place down and vacates the last used slot.
-/

namespace SlotArray

variable {Item : Type*} {capacity : Nat}

/-- The first slots hold the items in order, and the slots after them are vacant. -/
def Holds (slots : Vector (Option Item) capacity) (items : List Item) : Prop :=
  items.length ≤ capacity ∧ ∀ index, index < capacity → slots[index]? = some items[index]?

/-- Copy slot `i + 1` over slot `i` for `count` indices in ascending order, starting
at `start`. A slot past the end of the array reads as vacant. -/
def shiftDown (slots : Vector (Option Item) capacity) (start : Nat) :
    Nat → Vector (Option Item) capacity
  | 0 => slots
  | count + 1 =>
      let moved := shiftDown slots start count
      moved.setIfInBounds (start + count) moved[start + count + 1]?.join

theorem shiftDown_getElem? (slots : Vector (Option Item) capacity) (start count index : Nat)
    (hindex : index < capacity) :
    (shiftDown slots start count)[index]? =
      if start ≤ index ∧ index < start + count then some slots[index + 1]?.join
      else slots[index]? := by
  induction count generalizing index with
  | zero =>
      have hnot : ¬ (start ≤ index ∧ index < start + 0) := by omega
      rw [if_neg hnot]
      rfl
  | succ count ih =>
      rw [shiftDown, Vector.getElem?_setIfInBounds]
      by_cases heq : start + count = index
      · have hrange : start ≤ index ∧ index < start + (count + 1) := by omega
        rw [if_pos heq, if_pos (by omega), if_pos hrange]
        congr 2
        by_cases hlast : index + 1 < capacity
        · have hbeyond : ¬ (start ≤ index + 1 ∧ index + 1 < start + count) := by omega
          rw [heq, ih (index + 1) hlast, if_neg hbeyond]
        · rw [Vector.getElem?_eq_none (by omega), Vector.getElem?_eq_none (by omega)]
      · rw [if_neg heq, ih index hindex]
        have hsame : (start ≤ index ∧ index < start + count) ↔
            (start ≤ index ∧ index < start + (count + 1)) := by omega
        simp only [hsame]

theorem Holds.getElem?_join {slots : Vector (Option Item) capacity} {items : List Item}
    (hholds : Holds slots items) (index : Nat) : slots[index]?.join = items[index]? := by
  by_cases hindex : index < capacity
  · rw [hholds.2 index hindex]
    rfl
  · rw [Vector.getElem?_eq_none (by omega),
      List.getElem?_eq_none (Nat.le_trans hholds.1 (Nat.le_of_not_lt hindex))]
    rfl

theorem holds_replicate_none : Holds (Vector.replicate capacity (none : Option Item)) [] := by
  refine ⟨Nat.zero_le _, fun index hindex => ?_⟩
  simp [hindex]

/-- Writing the first vacant slot appends the item. -/
theorem Holds.push {slots : Vector (Option Item) capacity} {items : List Item}
    (hholds : Holds slots items) (hroom : items.length < capacity) (item : Item) :
    Holds (slots.setIfInBounds items.length (some item)) (items ++ [item]) := by
  refine ⟨by rw [List.length_append]; exact hroom, fun index hindex => ?_⟩
  rw [Vector.getElem?_setIfInBounds, hholds.2 index hindex, List.getElem?_append]
  by_cases heq : items.length = index
  · subst heq
    simp [hroom]
  · by_cases hlt : index < items.length
    · simp [heq, hlt]
    · have hbeyond : ([item] : List Item)[index - items.length]? = none :=
        List.getElem?_eq_none (by simp only [List.length_singleton]; omega)
      simp [heq, hlt, hbeyond]

/-- Shifting the slots behind position `index` down and vacating the last used slot
removes exactly that item and keeps the order of the others. -/
theorem Holds.eraseIdx {slots : Vector (Option Item) capacity} {items : List Item}
    (hholds : Holds slots items) {index : Nat} (hindex : index < items.length) :
    Holds ((shiftDown slots index (items.length - 1 - index)).setIfInBounds
      (items.length - 1) none) (items.eraseIdx index) := by
  have hcapacity := hholds.1
  have hlength := List.length_eraseIdx_of_lt hindex
  refine ⟨by omega, fun position hposition => ?_⟩
  rw [Vector.getElem?_setIfInBounds, List.getElem?_eraseIdx]
  by_cases hlast : items.length - 1 = position
  · have hbeyond : items[position + 1]? = none := List.getElem?_eq_none (by omega)
    have hnot : ¬ position < index := by omega
    rw [if_pos hlast, if_pos (by omega), if_neg hnot, hbeyond]
  · rw [if_neg hlast, shiftDown_getElem? _ _ _ _ hposition, hholds.getElem?_join,
      hholds.2 position hposition]
    by_cases hbefore : position < index
    · rw [if_pos hbefore, if_neg (by omega)]
    · rw [if_neg hbefore]
      by_cases hused : position < items.length - 1
      · rw [if_pos (by omega)]
      · have hhere : items[position]? = none := List.getElem?_eq_none (by omega)
        have hnext : items[position + 1]? = none := List.getElem?_eq_none (by omega)
        rw [if_neg (by omega), hhere, hnext]

end SlotArray
