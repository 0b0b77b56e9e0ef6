import Mathlib.Logic.Function.Basic

/-! # Lazily allocated radix tables

A table of tables, `depth` levels above the tables that hold values. A table below the
top one need not exist yet: reading through a missing table gives the zero value, and
writing through one allocates a table of zeros first. On such tables a write is a
point update of the map from paths to values.
-/

namespace Radix

variable {Index Value : Type}

/-- A table with `depth` levels of tables below it. -/
abbrev Table (Index Value : Type) : Nat → Type
  | 0 => Index → Value
  | depth + 1 => Index → Option (Table Index Value depth)

/-- One index for each level. -/
abbrev Path (Index : Type) : Nat → Type
  | 0 => Index
  | depth + 1 => Index × Path Index depth

/-- A newly allocated table. -/
def fresh (zero : Value) : (depth : Nat) → Table Index Value depth
  | 0 => fun _ => zero
  | _ + 1 => fun _ => none

def get (zero : Value) : (depth : Nat) → Table Index Value depth → Path Index depth → Value
  | 0, table, index => table index
  | depth + 1, table, (index, rest) =>
      match table index with
      | none => zero
      | some below => get zero depth below rest

/-- Change the value at the end of a path, allocating the tables on the way. -/
def modify [DecidableEq Index] (zero : Value) (change : Value → Value) :
    (depth : Nat) → Table Index Value depth → Path Index depth → Table Index Value depth
  | 0, table, index => Function.update table index (change (table index))
  | depth + 1, table, (index, rest) =>
      Function.update table index
        (some (modify zero change depth ((table index).getD (fresh zero depth)) rest))

@[simp] theorem get_fresh (zero : Value) (depth : Nat) (path : Path Index depth) :
    get zero depth (fresh zero depth) path = zero := by
  cases depth with
  | zero => rfl
  | succ depth => rfl

/-- Reading through a table that a write would allocate. -/
theorem get_getD (zero : Value) (depth : Nat) (entry : Option (Table Index Value depth))
    (path : Path Index depth) :
    get zero depth (entry.getD (fresh zero depth)) path =
      match entry with
      | none => zero
      | some below => get zero depth below path := by
  cases entry with
  | none => exact get_fresh zero depth path
  | some below => rfl

variable [DecidableEq Index]

@[simp] theorem get_modify_self (zero : Value) (change : Value → Value) (depth : Nat)
    (table : Table Index Value depth) (path : Path Index depth) :
    get zero depth (modify zero change depth table path) path =
      change (get zero depth table path) := by
  induction depth with
  | zero => exact Function.update_self ..
  | succ depth ih =>
      obtain ⟨index, rest⟩ := path
      simp only [get, modify, Function.update_self]
      rw [ih, get_getD]

/-- A write changes no other path, also where it allocates tables on that path. -/
theorem get_modify_of_ne (zero : Value) (change : Value → Value) (depth : Nat)
    (table : Table Index Value depth) {path other : Path Index depth} (hne : other ≠ path) :
    get zero depth (modify zero change depth table path) other = get zero depth table other := by
  induction depth with
  | zero => exact Function.update_of_ne hne ..
  | succ depth ih =>
      obtain ⟨index, rest⟩ := path
      obtain ⟨otherIndex, otherRest⟩ := other
      by_cases hindex : otherIndex = index
      · subst hindex
        have hrest : otherRest ≠ rest := fun heq => hne (congrArg (Prod.mk otherIndex) heq)
        simp only [get, modify, Function.update_self]
        rw [ih _ hrest, get_getD]
      · simp only [get, modify, Function.update_of_ne hindex]

/-- Walking a path without a change allocates its tables and changes no value. -/
theorem get_modify_id (zero : Value) (depth : Nat) (table : Table Index Value depth)
    (path other : Path Index depth) :
    get zero depth (modify zero id depth table path) other = get zero depth table other := by
  by_cases hsame : other = path
  · subst hsame
    exact get_modify_self zero id depth table other
  · exact get_modify_of_ne zero id depth table hsame

end Radix
