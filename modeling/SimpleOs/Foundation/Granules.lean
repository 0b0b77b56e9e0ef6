import Mathlib.Algebra.Order.Floor.Div
import Mathlib.GroupTheory.GroupAction.Ring

/-! # Growing by granules

Memory is handed out in granules of so many bytes. A space that grows from one bound to the
next asks for granules from the one of the old bound on, and for as many as the new bound
needs from 0. They cover the new bytes, and yet one growth after another gets the same
granules: two growths are kept apart by an aligned bound, and three by nothing.
-/

namespace Granules

/-- Granules in a row. -/
structure Extent where
  start : Nat
  count : Nat

/-- The granule is one of them. -/
def Extent.Has (extent : Extent) (granule : Nat) : Prop :=
  extent.start ≤ granule ∧ granule < extent.start + extent.count

/-- The new bytes lie in the extent. -/
def Covers (unit : Nat) (extent : Extent) (bound size : Nat) : Prop :=
  ∀ byte, bound ≤ byte → byte < size → extent.Has (byte / unit)

/-- No granule is in an earlier extent as well. -/
def Fresh (asked : List Extent) (extent : Extent) : Prop :=
  ∀ earlier ∈ asked, ∀ granule, extent.Has granule → ¬ earlier.Has granule

variable {unit limit : Nat} {count : Nat → Nat}

/-- The extent that a growth from one bound to the next asks for. -/
def ask (unit : Nat) (count : Nat → Nat) (bound size : Nat) : Extent where
  start := bound / unit
  count := count size

theorem has_ask {bound size granule : Nat} :
    (ask unit count bound size).Has granule ↔
      bound / unit ≤ granule ∧ granule < bound / unit + count size := Iff.rfl

theorem lt_ceilDiv_iff (hunit : 0 < unit) {granule size : Nat} :
    granule < size ⌈/⌉ unit ↔ granule * unit < size := by
  rw [← not_le, ceilDiv_le_iff_le_mul hunit, not_le, Nat.mul_comm]

theorem div_le_ceilDiv (hunit : 0 < unit) (size : Nat) : size / unit ≤ size ⌈/⌉ unit := by
  by_contra hlt
  rw [not_le, ← Nat.succ_le_iff, Nat.le_div_iff_mul_le hunit] at hlt
  have hceil : size ≤ size ⌈/⌉ unit * unit := by
    rw [Nat.mul_comm]
    exact (ceilDiv_le_iff_le_mul hunit).mp le_rfl
  rw [Nat.succ_mul] at hlt
  omega

/-- Bytes from the first granule on are covered by as many granules as they need. -/
theorem covers_iff (hunit : 0 < unit) (count : Nat → Nat) (bound size : Nat) :
    Covers unit (ask unit count bound size) bound size ↔
      size ≤ bound ∨ size ⌈/⌉ unit ≤ bound / unit + count size := by
  unfold Covers
  simp only [has_ask, Nat.div_lt_iff_lt_mul hunit]
  rw [ceilDiv_le_iff_le_mul hunit, Nat.mul_comm]
  constructor
  · intro hcovers
    rcases Nat.lt_or_ge bound size with hlt | hle
    · obtain ⟨-, hlast⟩ := hcovers (size - 1) (by omega) (by omega)
      exact Or.inr (by omega)
    · exact Or.inl hle
  · rintro (hle | hfit) byte hlow hhigh
    · omega
    · exact ⟨Nat.div_le_div_right hlow, by omega⟩

/-! ## Growing again and again -/

/-- Every growth is covered by granules that none before asked for. -/
def Sound (unit : Nat) (count : Nat → Nat) (bound : Nat) (asked : List Extent) :
    List Nat → Prop
  | [] => True
  | size :: rest =>
      Covers unit (ask unit count bound size) bound size ∧
        Fresh asked (ask unit count bound size) ∧
        Sound unit count size (ask unit count bound size :: asked) rest

/-- The counts are right below a limit, and too low for bounds below it otherwise. -/
structure Limited (unit limit : Nat) (count : Nat → Nat) (size : Nat) : Prop where
  exact : size ⌈/⌉ unit < limit → count size = size ⌈/⌉ unit
  short : limit ≤ size ⌈/⌉ unit → ∀ start < limit, start + count size < size ⌈/⌉ unit

/-- Where every growth is covered, no size reaches the limit. -/
theorem Sound.lt_limit {bound : Nat} {asked : List Extent} {sizes : List Nat}
    (hunit : 0 < unit) (hlimited : ∀ size ∈ sizes, Limited unit limit count size)
    (hbound : bound ⌈/⌉ unit < limit) (hsound : Sound unit count bound asked sizes) :
    ∀ size ∈ sizes, size ⌈/⌉ unit < limit := by
  induction sizes generalizing bound asked with
  | nil => simp
  | cons size rest ih =>
      obtain ⟨hcovers, -, hrest⟩ := hsound
      have hsize : size ⌈/⌉ unit < limit := by
        by_contra hover
        rw [not_lt] at hover
        have hshort := (hlimited size List.mem_cons_self).short hover (bound / unit)
          ((div_le_ceilDiv hunit bound).trans_lt hbound)
        rcases (covers_iff hunit count bound size).mp hcovers with hle | hfit
        · have hmono : size ⌈/⌉ unit ≤ bound ⌈/⌉ unit := by
            rw [ceilDiv_le_iff_le_mul hunit]
            exact hle.trans ((ceilDiv_le_iff_le_mul hunit).mp le_rfl)
          omega
        · omega
      intro other hother
      rcases List.mem_cons.mp hother with rfl | hlater
      · exact hsize
      · exact ih (fun later hmem => hlimited later (List.mem_cons_of_mem _ hmem)) hsize hrest
          other hlater

theorem ceilDiv_pos {size : Nat} (hunit : 0 < unit) (hsize : 0 < size) : 0 < size ⌈/⌉ unit := by
  rw [lt_ceilDiv_iff hunit]
  omega

theorem covers_of_exact {bound size : Nat} (hunit : 0 < unit)
    (hexact : count size = size ⌈/⌉ unit) : Covers unit (ask unit count bound size) bound size := by
  rw [covers_iff hunit, hexact]
  exact Or.inr (Nat.le_add_left _ _)

/-- The second growth starts at the bound of the first one, which is free when aligned. -/
theorem fresh_second_iff {first second : Nat} (hunit : 0 < unit)
    (hfirst : count first = first ⌈/⌉ unit) (hsecond : 0 < count second) :
    Fresh [ask unit count 0 first] (ask unit count first second) ↔ unit ∣ first := by
  have hfree : Fresh [ask unit count 0 first] (ask unit count first second) ↔
      first ⌈/⌉ unit ≤ first / unit := by
    unfold Fresh
    simp only [List.mem_singleton, forall_eq, has_ask, Nat.zero_div, Nat.zero_add, hfirst]
    generalize first / unit = start
    constructor
    · intro hfresh
      have hstart := hfresh start ⟨le_rfl, by omega⟩
      omega
    · intro hle granule hgranule
      omega
  rw [hfree, ceilDiv_le_iff_le_mul hunit, Nat.dvd_iff_div_mul_eq, Nat.mul_comm]
  have hround := Nat.div_mul_le_self first unit
  constructor
  · intro hle
    exact Nat.le_antisymm hround hle
  · exact fun heq => heq.ge

/-- The third growth starts inside the first or the second one. -/
theorem not_fresh_third {first second third : Nat} (hunit : 0 < unit) (hpos : 0 < first)
    (haligned : unit ∣ first) (hfirst : count first = first ⌈/⌉ unit)
    (hsecond : count second = second ⌈/⌉ unit) (hthird : 0 < count third) :
    ¬ Fresh [ask unit count first second, ask unit count 0 first]
      (ask unit count second third) := by
  intro hfresh
  have hstart : (ask unit count second third).Has (second / unit) := ⟨le_rfl, by
    change _ < second / unit + count third
    omega⟩
  have hinSecond := hfresh _ List.mem_cons_self _ hstart
  have hinFirst := hfresh _ (List.mem_cons_of_mem _ List.mem_cons_self) _ hstart
  rw [has_ask, hsecond] at hinSecond
  rw [has_ask, hfirst, Nat.zero_div, Nat.zero_add] at hinFirst
  have hquotient : 0 < first / unit := Nat.div_pos (Nat.le_of_dvd hpos haligned) hunit
  have hle := div_le_ceilDiv hunit first
  have hround := div_le_ceilDiv hunit second
  generalize first / unit = start at *
  generalize second / unit = last at *
  omega

/-- From nothing on, growth is sound exactly when all sizes are below the limit, and there is
at most one, or a second one after an aligned one. -/
theorem sound_iff {sizes : List Nat} (hunit : 0 < unit) (hlimit : 0 < limit)
    (hpos : ∀ size ∈ sizes, 0 < size)
    (hlimited : ∀ size ∈ sizes, Limited unit limit count size) :
    Sound unit count 0 [] sizes ↔
      (∀ size ∈ sizes, size ⌈/⌉ unit < limit) ∧
        (sizes.length ≤ 1 ∨ ∃ first second, sizes = [first, second] ∧ unit ∣ first) := by
  have hexact : (∀ size ∈ sizes, size ⌈/⌉ unit < limit) →
      ∀ size ∈ sizes, count size = size ⌈/⌉ unit :=
    fun hall size hsize => (hlimited size hsize).exact (hall size hsize)
  constructor
  · intro hsound
    have hall := hsound.lt_limit hunit hlimited (by simpa using hlimit)
    have hcount := hexact hall
    refine ⟨hall, ?_⟩
    match sizes, hsound with
    | [], _ => exact Or.inl (Nat.zero_le 1)
    | [first], _ => exact Or.inl le_rfl
    | [first, second], ⟨_, _, _, hfresh, _⟩ =>
        have hpositive : 0 < count second := by
          rw [hcount second (by simp)]
          exact ceilDiv_pos hunit (hpos second (by simp))
        exact Or.inr ⟨first, second, rfl,
          (fresh_second_iff hunit (hcount first (by simp)) hpositive).mp hfresh⟩
    | first :: second :: third :: rest, ⟨_, _, _, hfresh, _, hthird, _⟩ =>
        have hpositive : ∀ size ∈ [second, third], 0 < count size := by
          intro size hsize
          have hmem : size ∈ first :: second :: third :: rest := by
            simp only [List.mem_cons, List.not_mem_nil, or_false] at hsize ⊢
            tauto
          rw [hcount size hmem]
          exact ceilDiv_pos hunit (hpos size hmem)
        have haligned := (fresh_second_iff hunit (hcount first (by simp))
          (hpositive second (by simp))).mp hfresh
        exact absurd hthird (not_fresh_third hunit (hpos first (by simp)) haligned
          (hcount first (by simp)) (hcount second (by simp)) (hpositive third (by simp)))
  · rintro ⟨hall, hshort⟩
    have hcount := hexact hall
    have hnothing : ∀ extent, Fresh [] extent := fun extent earlier hearlier => by cases hearlier
    match sizes, hshort with
    | [], _ => trivial
    | [first], _ => exact ⟨covers_of_exact hunit (hcount first (by simp)), hnothing _, trivial⟩
    | [first, second], hshort =>
        have hpositive : 0 < count second := by
          rw [hcount second (by simp)]
          exact ceilDiv_pos hunit (hpos second (by simp))
        have haligned : unit ∣ first := by
          rcases hshort with hlength | ⟨_, _, hsizes, haligned⟩
          · simp at hlength
          · cases hsizes
            exact haligned
        exact ⟨covers_of_exact hunit (hcount first (by simp)), hnothing _,
          covers_of_exact hunit (hcount second (by simp)),
          (fresh_second_iff hunit (hcount first (by simp)) hpositive).mpr haligned, trivial⟩
    | first :: second :: third :: rest, hshort =>
        rcases hshort with hlength | ⟨_, _, hsizes, -⟩
        · simp at hlength
        · cases hsizes

end Granules
