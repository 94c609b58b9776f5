import Mathlib.Algebra.Order.Field.Basic
import Mathlib.Algebra.Order.Group.Unbundled.Abs
import Mathlib.Data.Nat.Find
import Curves.Scalar

/-!
# Exact scalars

The elements of an ordered field and one undefined value, which absorbs every operation and comes
up in a division by zero. Roots, exponentials and angles are any functions on the field.
-/

namespace Curves

universe u

inductive Exact (K : Type u) where
  | undefined
  | value (a : K)
  deriving DecidableEq

namespace Exact

variable {K : Type u}

def map (f : K → K) : Exact K → Exact K
  | undefined => undefined
  | value a => value (f a)

/-- Both arguments have to be defined, and the result may fail to be. -/
def map₂ (f : K → K → Exact K) : Exact K → Exact K → Exact K
  | value a, value b => f a b
  | _, _ => undefined

def Both (r : K → K → Prop) : Exact K → Exact K → Prop
  | value a, value b => r a b
  | _, _ => False

instance (r : K → K → Prop) [DecidableRel r] : DecidableRel (Both r)
  | value a, value b => inferInstanceAs (Decidable (r a b))
  | value _, undefined => .isFalse id
  | undefined, _ => .isFalse id

def IsValue (x : Exact K) : Prop :=
  ∃ a, x = value a

theorem isValue_value (a : K) : (value a).IsValue :=
  ⟨a, rfl⟩

theorem not_isValue_iff {x : Exact K} : ¬x.IsValue ↔ x = undefined := by
  cases x with
  | undefined => exact ⟨fun _ => rfl, fun _ => nofun⟩
  | value a => exact ⟨fun h => (h (isValue_value a)).elim, nofun⟩

theorem exists_map_value {xs : List (Exact K)} (h : ∀ x ∈ xs, x.IsValue) :
    ∃ as : List K, xs = as.map value := by
  induction xs with
  | nil => exact ⟨[], rfl⟩
  | cons x xs ih =>
    obtain ⟨⟨a, rfl⟩, hxs⟩ := List.forall_mem_cons.1 h
    obtain ⟨as, rfl⟩ := ih hxs
    exact ⟨a :: as, rfl⟩

variable [Field K] [LinearOrder K] [Elementary K]

/-- The greatest natural number that is not above the argument, if there is one at all. -/
noncomputable def floor? : Exact K → Option Nat
  | undefined => none
  | value a => by
    classical
    exact if h : ∃ n : Nat, a < n + 1 then some (Nat.find h) else none

noncomputable instance : Scalar (Exact K) where
  add := map₂ fun a b => value (a + b)
  sub := map₂ fun a b => value (a - b)
  mul := map₂ fun a b => value (a * b)
  div := map₂ fun a b => if b = 0 then undefined else value (a / b)
  neg := map fun a => -a
  lt := Both (· < ·)
  le := Both (· ≤ ·)
  beq x y := decide (Both (· = ·) x y)
  sqrt := fun
    | undefined => undefined
    | value a => if a < 0 then undefined else value (Elementary.sqrt a)
  exp := map Elementary.exp
  expSubOne := map Elementary.expSubOne
  sin := map Elementary.sin
  cos := map Elementary.cos
  tan := map Elementary.tan
  atan := map Elementary.atan
  ofNat n := value n
  undefined := undefined
  isUndefined
    | undefined => true
    | value _ => false
  isFinite
    | undefined => false
    | value _ => true
  mulAdd x y z := map₂ (fun a b => value (a + b)) (map₂ (fun a b => value (a * b)) x y) z
  magnitude := map abs
  signum := map fun a => if a < 0 then -1 else 1
  totalLE
    | _, undefined => true
    | undefined, value _ => false
    | value a, value b => decide (a ≤ b)
  floor? := floor?
  decidableLT := inferInstanceAs (DecidableRel (Both (· < ·)))
  decidableLE := inferInstanceAs (DecidableRel (Both (· ≤ ·)))

section Values

variable (a b c : K)

@[simp] theorem value_add : (value a + value b : Exact K) = value (a + b) := rfl

@[simp] theorem value_sub : (value a - value b : Exact K) = value (a - b) := rfl

@[simp] theorem value_mul : (value a * value b : Exact K) = value (a * b) := rfl

@[simp] theorem value_neg : (-value a : Exact K) = value (-a) := rfl

variable {b} in
theorem value_div (hb : b ≠ 0) : (value a / value b : Exact K) = value (a / b) := by
  change (if b = 0 then undefined else value (a / b)) = value (a / b)
  rw [if_neg hb]

@[simp] theorem value_div_zero : (value a / value 0 : Exact K) = undefined := by
  change (if (0 : K) = 0 then undefined else value (a / 0)) = undefined
  rw [if_pos rfl]

theorem value_mul_div {b : K} (hb : b ≠ 0) (x : Exact K) : value b * (x / value b) = x := by
  cases x with
  | undefined => rfl
  | value a => rw [value_div a hb, value_mul, mul_div_cancel₀ a hb]

@[simp] theorem div_value_one (x : Exact K) : x / value 1 = x := by
  cases x with
  | undefined => rfl
  | value a => rw [value_div a one_ne_zero, div_one]

@[simp] theorem value_lt : (value a < value b : Prop) ↔ a < b := .rfl

@[simp] theorem value_le : (value a ≤ value b : Prop) ↔ a ≤ b := .rfl

@[simp] theorem value_beq : (value a == value b) = decide (a = b) := rfl

@[simp] theorem totalLE_value : Scalar.totalLE (value a) (value b) = decide (a ≤ b) := rfl

variable {a} in
theorem sqrt_value (ha : 0 ≤ a) : Elementary.sqrt (value a) = value (Elementary.sqrt a) := by
  change (if a < 0 then undefined else value (Elementary.sqrt a)) = value (Elementary.sqrt a)
  rw [if_neg (not_lt.2 ha)]

@[simp] theorem exp_value : Elementary.exp (value a) = value (Elementary.exp a) := rfl

@[simp] theorem expSubOne_value :
    Elementary.expSubOne (value a) = value (Elementary.expSubOne a) := rfl

@[simp] theorem sin_value : Elementary.sin (value a) = value (Elementary.sin a) := rfl

@[simp] theorem cos_value : Elementary.cos (value a) = value (Elementary.cos a) := rfl

@[simp] theorem tan_value : Elementary.tan (value a) = value (Elementary.tan a) := rfl

@[simp] theorem atan_value : Elementary.atan (value a) = value (Elementary.atan a) := rfl

@[simp] theorem magnitude_value : Scalar.magnitude (value a) = value |a| := rfl

@[simp] theorem maximum_value : Scalar.maximum (value a) (value b) = value (max a b) := by
  rw [max_def_lt, apply_ite value]
  rfl

end Values

section Undefined

variable (x y : Exact K)

@[simp] theorem undefined_add : undefined + x = undefined := rfl

@[simp] theorem add_undefined : x + undefined = undefined := by
  cases x <;> rfl

@[simp] theorem undefined_sub : undefined - x = undefined := rfl

@[simp] theorem sub_undefined : x - undefined = undefined := by
  cases x <;> rfl

@[simp] theorem undefined_mul : undefined * x = undefined := rfl

@[simp] theorem mul_undefined : x * undefined = undefined := by
  cases x <;> rfl

@[simp] theorem undefined_div : undefined / x = undefined := rfl

@[simp] theorem div_undefined : x / undefined = undefined := by
  cases x <;> rfl

@[simp] theorem not_lt_undefined : ¬(x < undefined) := by
  cases x <;> exact id

@[simp] theorem not_undefined_le : ¬(undefined ≤ x) := id

@[simp] theorem not_le_undefined : ¬(x ≤ undefined) := by
  cases x <;> exact id

end Undefined

@[simp] theorem scalar_undefined : (Scalar.undefined : Exact K) = undefined := rfl

@[simp] theorem scalar_ofNat (n : Nat) : (Scalar.ofNat n : Exact K) = value (n : K) := rfl

@[simp] theorem zero_eq : (0 : Exact K) = value 0 :=
  congrArg value Nat.cast_zero

@[simp] theorem one_eq : (1 : Exact K) = value 1 :=
  congrArg value Nat.cast_one

@[simp] theorem ofNat_eq (n : Nat) [n.AtLeastTwo] :
    (OfNat.ofNat n : Exact K) = value (OfNat.ofNat n) :=
  rfl

@[simp] theorem mulAdd_eq (x y z : Exact K) : Scalar.mulAdd x y z = x * y + z := rfl

theorem mergeSort_map_value (as : List K) :
    (as.map value).mergeSort Scalar.totalLE = (as.mergeSort (· ≤ ·)).map value := by
  symm
  apply List.map_mergeSort
  intro a _ b _
  exact (totalLE_value a b).symm

section IsValue

variable {x y : Exact K}

theorem IsValue.add (hx : x.IsValue) (hy : y.IsValue) : (x + y).IsValue := by
  obtain ⟨a, rfl⟩ := hx
  obtain ⟨b, rfl⟩ := hy
  exact ⟨a + b, rfl⟩

theorem IsValue.sub (hx : x.IsValue) (hy : y.IsValue) : (x - y).IsValue := by
  obtain ⟨a, rfl⟩ := hx
  obtain ⟨b, rfl⟩ := hy
  exact ⟨a - b, rfl⟩

theorem IsValue.mul (hx : x.IsValue) (hy : y.IsValue) : (x * y).IsValue := by
  obtain ⟨a, rfl⟩ := hx
  obtain ⟨b, rfl⟩ := hy
  exact ⟨a * b, rfl⟩

theorem IsValue.div (hx : x.IsValue) {b : K} (hb : b ≠ 0) : (x / value b).IsValue := by
  obtain ⟨a, rfl⟩ := hx
  exact ⟨a / b, value_div a hb⟩

theorem isValue_add_iff : (x + y).IsValue ↔ x.IsValue ∧ y.IsValue := by
  constructor
  · rintro ⟨c, hc⟩
    cases x with
    | undefined => cases hc
    | value a =>
      cases y with
      | undefined => cases hc
      | value b => exact ⟨isValue_value a, isValue_value b⟩
  · exact fun h => h.1.add h.2

theorem isValue_sub_iff : (x - y).IsValue ↔ x.IsValue ∧ y.IsValue := by
  constructor
  · rintro ⟨c, hc⟩
    cases x with
    | undefined => cases hc
    | value a =>
      cases y with
      | undefined => cases hc
      | value b => exact ⟨isValue_value a, isValue_value b⟩
  · exact fun h => h.1.sub h.2

theorem isValue_value_mul_iff {a : K} : (value a * x).IsValue ↔ x.IsValue := by
  constructor
  · rintro ⟨c, hc⟩
    cases x with
    | undefined => cases hc
    | value b => exact isValue_value b
  · exact (isValue_value a).mul

end IsValue

theorem zero_add (x : Exact K) : value 0 + x = x := by
  cases x <;> simp

theorem add_zero (x : Exact K) : x + value 0 = x := by
  cases x <;> simp

theorem add_assoc (x y z : Exact K) : x + y + z = x + (y + z) := by
  cases x <;> cases y <;> cases z <;> simp [AddSemigroup.add_assoc]

theorem add_comm (x y : Exact K) : x + y = y + x := by
  cases x <;> cases y <;> simp [AddCommMagma.add_comm]

theorem add_right_comm (x y z : Exact K) : x + y + z = x + z + y := by
  rw [add_assoc, add_comm y, ← add_assoc]

theorem add_sub_right_comm (x y z : Exact K) : x + y - z = x - z + y := by
  cases x <;> cases y <;> cases z <;> simp [sub_add_eq_add_sub]

theorem add_value_eq_undefined_iff {x : Exact K} {a : K} :
    x + value a = undefined ↔ x = undefined := by
  cases x with
  | undefined => exact Iff.rfl
  | value b => exact ⟨nofun, nofun⟩

theorem mul_comm (x y : Exact K) : x * y = y * x := by
  cases x <;> cases y <;> simp [CommMagma.mul_comm]

theorem mul_assoc (x y z : Exact K) : x * y * z = x * (y * z) := by
  cases x <;> cases y <;> cases z <;> simp [Semigroup.mul_assoc]

theorem mul_add (x y z : Exact K) : x * (y + z) = x * y + x * z := by
  cases x <;> cases y <;> cases z <;> simp [left_distrib]

end Exact
end Curves
