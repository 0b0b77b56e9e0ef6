import Mathlib.Algebra.Order.Ring.Int
import Mathlib.Algebra.Order.Ring.Nat
import Mathlib.Data.List.Basic

/-! # Machine types and undefined behaviour

The simulator is compiled with `MM64`, so addresses and instruction arguments are
64-bit words and `int` has 32 bits. Only `sys_mem.c` includes `os-mm.h` before `MM64` is
defined, and takes addresses for 32-bit words. A C `int` is an `Int`; the casts below say
where it is narrowed or widened. Code whose C behaviour is undefined returns a `Fault`,
and a run that faults has no next state.
-/

namespace SimpleOs

/-- `addr_t`, and `arg_t`: both are `uint64_t`, but for the `addr_t` of `sys_mem.c`. -/
abbrev Addr := BitVec 64

/-- `BYTE`, a `char`. -/
abbrev Byte := BitVec 8

/-- `uint32_t` -/
abbrev Word32 := BitVec 32

/-- The ways in which the program can leave defined behaviour. -/
inductive Fault where
  | nullDeref
  | wildDeref
  | outOfBounds
  | useAfterFree
  deriving DecidableEq, Repr

/-- `(int) x` of a 64-bit word. -/
def toCInt (x : Addr) : Int := (x.setWidth 32).toInt

/-- `(addr_t) z` of an `int`. -/
def ofCInt (z : Int) : Addr := BitVec.ofInt 64 z

/-- `(addr_t) x` in `sys_mem.c`, where the type is `uint32_t`, as a function of another file
gets it. -/
def toAddr32 (x : Addr) : Addr := (x.setWidth 32).setWidth 64

theorem toAddr32_toNat (x : Addr) : (toAddr32 x).toNat = x.toNat % 2 ^ 32 := by
  unfold toAddr32
  rw [BitVec.toNat_setWidth, BitVec.toNat_setWidth]
  omega

theorem toAddr32_toNat_le (x : Addr) : (toAddr32 x).toNat ≤ x.toNat := by
  rw [toAddr32_toNat]
  exact Nat.mod_le _ _

/-- Narrowing a word to an `int` first makes no difference. -/
theorem toAddr32_ofCInt (x : Addr) : toAddr32 (ofCInt (toCInt x)) = toAddr32 x := by
  have hlow : (ofCInt (toCInt x)).setWidth 32 = x.setWidth 32 := by
    change ((x.setWidth 32).signExtend 64).setWidth 32 = x.setWidth 32
    apply BitVec.eq_of_getLsbD_eq
    intro bit hbit
    rw [BitVec.getLsbD_setWidth, BitVec.getLsbD_signExtend]
    simp [hbit, show bit < 64 by omega]
  unfold toAddr32
  rw [hlow]

/-- A word below the sign bit of an `int` keeps its value, and no `int` is larger. -/
theorem toCInt_toNat (maxSize : Addr) :
    (maxSize.toNat < 2 ^ 31 → toCInt maxSize = maxSize.toNat) ∧ toCInt maxSize < 2 ^ 31 := by
  unfold toCInt
  rw [BitVec.toInt_eq_toNat_bmod, BitVec.toNat_setWidth]
  constructor
  · intro hlt
    rw [Nat.mod_eq_of_lt (by omega), Int.bmod_eq_of_le (by omega) (by omega)]
  · exact Int.bmod_lt (by decide)

theorem toCInt_le (x : Addr) : toCInt x ≤ x.toNat := by
  have hlow : (x.setWidth 32).toNat ≤ x.toNat := by
    rw [BitVec.toNat_setWidth]
    exact Nat.mod_le _ _
  have hword : toCInt x ≤ (x.setWidth 32).toNat := by
    unfold toCInt
    rw [BitVec.toInt_eq_toNat_cond]
    split <;> omega
  omega

/-- What ends a linked list in memory: a `NULL` link, or a link that was never
written, whose value is indeterminate. -/
inductive ListEnd where
  | null
  | wild
  deriving DecidableEq, Repr

/-- A singly linked list as it lies in memory. -/
structure Chain (Node : Type) where
  nodes : List Node
  stop : ListEnd
  deriving DecidableEq, Repr

/-- Following a link at the end of a list. -/
def ListEnd.follow {Result : Type} (stop : ListEnd) (result : Result) : Except Fault Result :=
  match stop with
  | .null => .ok result
  | .wild => .error .wildDeref

@[simp] theorem pure_eq_ok {Result : Type} (result : Result) :
    (pure result : Except Fault Result) = .ok result := rfl

@[simp] theorem ok_bind {First Second : Type} (value : First)
    (next : First → Except Fault Second) : (.ok value >>= next) = next value := rfl

@[simp] theorem error_bind {First Second : Type} (fault : Fault)
    (next : First → Except Fault Second) : (.error fault >>= next) = .error fault := rfl

/-- A sequence of two computations completes when both do. -/
theorem bind_eq_ok {First Second : Type} {first : Except Fault First}
    {next : First → Except Fault Second} {result : Second} :
    (first >>= next) = .ok result ↔ ∃ value, first = .ok value ∧ next value = .ok result := by
  cases first with
  | error fault =>
      refine ⟨fun h => (by cases h), fun ⟨_, h, _⟩ => (by cases h)⟩
  | ok value =>
      refine ⟨fun h => ⟨value, rfl, h⟩, fun ⟨found, h, hnext⟩ => ?_⟩
      cases h
      exact hnext

theorem map_eq_ok {First Second : Type} {first : Except Fault First} {next : First → Second}
    {result : Second} :
    first.map next = .ok result ↔ ∃ value, first = .ok value ∧ next value = result := by
  cases first with
  | error fault =>
      refine ⟨fun h => (by cases h), fun ⟨_, h, _⟩ => (by cases h)⟩
  | ok value =>
      refine ⟨fun h => ⟨value, rfl, Except.ok.inj h⟩, fun ⟨found, h, hnext⟩ => ?_⟩
      cases h
      exact congrArg _ hnext

/-- A loop completes when an invariant of its values lets every round complete. -/
theorem exists_foldlM {Value Item : Type} {round : Value → Item → Except Fault Value}
    {items : List Item} {start : Value} (invariant : Value → Prop) (hstart : invariant start)
    (hround : ∀ value, ∀ item ∈ items, invariant value →
      ∃ next, round value item = .ok next ∧ invariant next) :
    ∃ final, items.foldlM round start = .ok final ∧ invariant final := by
  induction items generalizing start with
  | nil => exact ⟨start, rfl, hstart⟩
  | cons item rest ih =>
      obtain ⟨next, hnext, hinvariant⟩ := hround start item List.mem_cons_self hstart
      rw [List.foldlM_cons, hnext, ok_bind]
      exact ih hinvariant fun value other hother =>
        hround value other (List.mem_cons_of_mem _ hother)

end SimpleOs
