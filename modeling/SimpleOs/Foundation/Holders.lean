import Mathlib.Data.List.FinRange

/-! # Parties that each hold at most one item

The items that finitely many parties hold, as a list. Changing what one party holds changes
the list at one place, and where the list has no duplicates every item has one holder. Where
items are given back, the lists of those owed and of those given tell the parties apart as
long as only one item can get lost.
-/

namespace Holders

variable {count : Nat} {Item : Type*}

/-- What the parties hold. -/
def held (holding : Fin count → Option Item) : List Item :=
  (List.finRange count).filterMap holding

variable {holding : Fin count → Option Item} {party : Fin count}

theorem mem_held {item : Item} : item ∈ held holding ↔ ∃ party, holding party = some item := by
  unfold held
  simp only [List.mem_filterMap, List.mem_finRange, true_and]

theorem filterMap_update_of_notMem (holding : Fin count → Option Item) (slot : Option Item)
    {parties : List (Fin count)} (hparty : party ∉ parties) :
    parties.filterMap (Function.update holding party slot) = parties.filterMap holding := by
  apply List.filterMap_congr
  intro other hother
  have hne : other ≠ party := by
    rintro rfl
    exact hparty hother
  exact Function.update_of_ne hne _ _

/-- The items of the other parties, beside those of one. -/
theorem exists_rest (holding : Fin count → Option Item) (party : Fin count) :
    ∃ rest, ∀ slot, (held (Function.update holding party slot)).Perm (slot.toList ++ rest) := by
  obtain ⟨before, after, hsplit⟩ := List.append_of_mem (List.mem_finRange party)
  have hnodup := List.nodup_finRange count
  rw [hsplit, List.nodup_middle, List.nodup_cons, List.mem_append, not_or] at hnodup
  refine ⟨before.filterMap holding ++ after.filterMap holding, fun slot => ?_⟩
  unfold held
  rw [hsplit, List.filterMap_append, List.filterMap_cons, Function.update_self,
    filterMap_update_of_notMem holding slot hnodup.1.1,
    filterMap_update_of_notMem holding slot hnodup.1.2]
  cases slot with
  | none => exact List.Perm.refl _
  | some item => exact List.perm_middle

/-- The same with the items held before. -/
theorem exists_rest_self (holding : Fin count → Option Item) (party : Fin count) :
    ∃ rest, (held holding).Perm ((holding party).toList ++ rest) ∧
      ∀ slot, (held (Function.update holding party slot)).Perm (slot.toList ++ rest) := by
  obtain ⟨rest, hrest⟩ := exists_rest holding party
  refine ⟨rest, ?_, hrest⟩
  have hself := hrest (holding party)
  rwa [Function.update_eq_self] at hself

/-- Without duplicates an item has one holder. -/
theorem eq_of_nodup (hnodup : (held holding).Nodup) {other : Fin count} {item : Item}
    (hparty : holding party = some item) (hother : holding other = some item) :
    party = other := by
  by_contra hne
  obtain ⟨rest, hself, hrest⟩ := exists_rest_self holding party
  have hmem : item ∈ held (Function.update holding party none) :=
    mem_held.mpr ⟨other, by rw [Function.update_of_ne (Ne.symm hne), hother]⟩
  rw [hself.nodup_iff, hparty] at hnodup
  exact (List.nodup_cons.mp hnodup).1 ((hrest none).mem_iff.mp hmem)

/-! ## Giving back -/

section GivenBack

variable {Party : Type*} {owed given : Party → Option Item} {parties : List Party}

theorem length_filterMap_le
    (hpaid : ∀ party ∈ parties, ∀ item, owed party = some item → given party = some item) :
    (parties.filterMap owed).length ≤ (parties.filterMap given).length := by
  induction parties with
  | nil => simp
  | cons party rest ih =>
      have hrest := ih fun other hother => hpaid other (List.mem_cons_of_mem _ hother)
      cases howed : owed party with
      | none =>
          rw [List.filterMap_cons_none howed, List.filterMap_cons]
          cases given party with
          | none => exact hrest
          | some item => exact Nat.le_succ_of_le hrest
      | some item =>
          have hgiven := hpaid party List.mem_cons_self item howed
          rw [List.filterMap_cons_some howed, List.filterMap_cons_some hgiven]
          exact Nat.succ_le_succ hrest

/-- Parties that pay what they owe, and as many items as they owe, pay nothing else. -/
theorem eq_of_length_filterMap
    (hpaid : ∀ party ∈ parties, ∀ item, owed party = some item → given party = some item)
    (hlength : (parties.filterMap given).length ≤ (parties.filterMap owed).length) :
    ∀ party ∈ parties, given party = owed party := by
  induction parties with
  | nil => simp
  | cons party rest ih =>
      have hrest : ∀ other ∈ rest, ∀ item, owed other = some item → given other = some item :=
        fun other hother => hpaid other (List.mem_cons_of_mem _ hother)
      have hle := length_filterMap_le hrest
      intro other hother
      cases howed : owed party with
      | none =>
          rw [List.filterMap_cons_none howed] at hlength
          cases hgiven : given party with
          | none =>
              rw [List.filterMap_cons_none hgiven] at hlength
              rcases List.mem_cons.mp hother with rfl | hlater
              · rw [hgiven, howed]
              · exact ih hrest hlength other hlater
          | some item =>
              rw [List.filterMap_cons_some hgiven, List.length_cons] at hlength
              omega
      | some item =>
          have hgiven := hpaid party List.mem_cons_self item howed
          rw [List.filterMap_cons_some howed, List.filterMap_cons_some hgiven] at hlength
          rcases List.mem_cons.mp hother with rfl | hlater
          · rw [hgiven, howed]
          · exact ih hrest (Nat.le_of_succ_le_succ hlength) other hlater

/-- When one item is never given back and all others are, the lists agree exactly when every
party gives what it owes. -/
theorem perm_filterMap_iff (lost : Item) (hlost : ∀ party ∈ parties, given party ≠ some lost)
    (hpaid : ∀ party ∈ parties, ∀ item, owed party = some item → item ≠ lost →
      given party = some item) :
    (parties.filterMap given).Perm (parties.filterMap owed) ↔
      ∀ party ∈ parties, given party = owed party := by
  constructor
  · intro hperm
    apply eq_of_length_filterMap
    · intro party hparty item howed
      apply hpaid party hparty item howed
      rintro rfl
      have hmem := hperm.mem_iff.mpr (List.mem_filterMap.mpr ⟨party, hparty, howed⟩)
      obtain ⟨other, hother, hgiven⟩ := List.mem_filterMap.mp hmem
      exact hlost other hother hgiven
    · exact hperm.length_eq.le
  · intro hsame
    rw [List.filterMap_congr hsame]

end GivenBack

end Holders
