import Mathlib.Data.List.Nodup

/-! # Rosters

A roster of a set is a list that has each of its members once and nothing else. Members that
join are put on the list together. The list stays a roster exactly when they are distinct and
none was a member before.
-/

namespace Roster

variable {Key : Type*}

/-- The list has each key of the set once, and no other. -/
structure Lists (keys : List Key) (member : Key → Prop) : Prop where
  nodup : keys.Nodup
  mem_iff : ∀ key, key ∈ keys ↔ member key

variable {keys joining : List Key} {member next : Key → Prop}

theorem lists_nil (hnone : ∀ key, ¬ member key) : Lists [] member where
  nodup := List.nodup_nil
  mem_iff key := by simp [hnone key]

/-- The set matters only for its members. -/
theorem lists_congr (hsame : ∀ key, next key ↔ member key) :
    Lists keys next ↔ Lists keys member := by
  constructor
  · intro hlists
    exact ⟨hlists.nodup, fun key => (hlists.mem_iff key).trans (hsame key)⟩
  · intro hlists
    exact ⟨hlists.nodup, fun key => (hlists.mem_iff key).trans (hsame key).symm⟩

theorem lists_append_iff (hlists : Lists keys member)
    (hnext : ∀ key, next key ↔ key ∈ joining ∨ member key) :
    Lists (joining ++ keys) next ↔ joining.Nodup ∧ ∀ key ∈ joining, ¬ member key := by
  constructor
  · intro hall
    obtain ⟨hjoining, -, hdisjoint⟩ := List.nodup_append.mp hall.nodup
    refine ⟨hjoining, fun key hkey hmember => ?_⟩
    exact hdisjoint key hkey key ((hlists.mem_iff key).mpr hmember) rfl
  · rintro ⟨hjoining, hfresh⟩
    constructor
    · refine List.nodup_append.mpr ⟨hjoining, hlists.nodup, ?_⟩
      rintro key hkey other hother rfl
      exact hfresh key hkey ((hlists.mem_iff key).mp hother)
    · intro key
      rw [List.mem_append, hlists.mem_iff, hnext]

/-- Taking a member off the list, and leaving it in the set. -/
theorem not_lists_of_dropped {key : Key} (hlists : Lists (keys ++ [key]) member) :
    ¬ Lists keys member := by
  intro hdropped
  obtain ⟨-, -, hdisjoint⟩ := List.nodup_append.mp hlists.nodup
  have hmember : member key := (hlists.mem_iff key).mp (by simp)
  exact hdisjoint key ((hdropped.mem_iff key).mpr hmember) key List.mem_cons_self rfl

end Roster
