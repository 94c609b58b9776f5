import Mathlib
import Curves.Proofs.Exact.Real
import Curves.Proofs.Polynomial.Value

namespace Curves.Polynomial

universe u

open Exact (value)

variable {K : Type u} [Field K] [LinearOrder K]

def bound (lower : List K) (leading : K) : K :=
  1 + (lower.map fun c => |c / leading|).foldr max 0

theorem rootBound_map [Elementary K] (lower : List K) {leading : K} (h : leading ≠ 0) :
    rootBound (lower.map value) (value leading) = value (bound lower leading) := by
  have foldl_map_value (l : List K) (a : K) :
      (l.map value).foldl Scalar.maximum (value a) = value (l.foldl max a) := by
    induction l generalizing a with
    | nil => rfl
    | cons b l ih => rw [List.map_cons, List.foldl_cons, Exact.maximum_value, ih, List.foldl_cons]
  have magnitude_ratio : (fun c => Scalar.magnitude (c / value leading)) ∘ value =
      value ∘ fun c => |c / leading| := by
    funext c
    rw [Function.comp, Exact.value_div c h]
    rfl
  rw [rootBound, bound, ← List.foldl_eq_foldr, List.map_map, magnitude_ratio, ← List.map_map,
    Exact.zero_eq, Exact.one_eq, foldl_map_value, Exact.value_add]

variable [IsStrictOrderedRing K]

theorem one_le_bound (lower : List K) (leading : K) : 1 ≤ bound lower leading := by
  rw [bound, le_add_iff_nonneg_right]
  induction lower with
  | nil => exact le_rfl
  | cons c cs ih => exact le_max_of_le_right ih

theorem abs_le_of_mem {lower : List K} {leading c : K} (h : leading ≠ 0) (hc : c ∈ lower) :
    |c| ≤ (bound lower leading - 1) * |leading| := by
  have hratio : |c / leading| ≤ bound lower leading - 1 := by
    rw [bound, add_sub_cancel_left]
    exact List.le_max_of_le' 0 (List.mem_map_of_mem hc) le_rfl
  rwa [abs_div, div_le_iff₀ (abs_pos.2 h)] at hratio

theorem abs_powerSum_le {lower : List K} {leading m x : K}
    (hl : ∀ c ∈ lower, |c| ≤ m * |leading|) (hx : 1 + m ≤ |x|) :
    |powerSum lower x| ≤ |leading| * (|x| ^ lower.length - 1) := by
  induction lower with
  | nil => simp [powerSum_nil]
  | cons c cs ih =>
    obtain ⟨hc, hcs⟩ := List.forall_mem_cons.1 hl
    have hih := ih hcs
    have hstep := mul_nonneg (abs_nonneg leading) (sub_nonneg.2 hx)
    calc |powerSum (c :: cs) x| ≤ |powerSum cs x| * |x| + |c| := by
          rw [powerSum_cons, ← abs_mul]
          exact abs_add_le _ _
      _ ≤ |leading| * (|x| ^ cs.length - 1) * |x| + m * |leading| := by gcongr
      _ ≤ |leading| * (|x| ^ (cs.length + 1) - 1) := by
          rw [pow_succ]
          linear_combination hstep

theorem abs_powerSum_lt {lower : List K} {leading x : K} (h : leading ≠ 0)
    (hx : bound lower leading ≤ |x|) :
    |powerSum lower x| < |leading * x ^ lower.length| := by
  have hle := abs_powerSum_le (fun c hc => abs_le_of_mem h hc) (by rwa [add_sub_cancel])
  rw [abs_mul, abs_pow]
  rw [mul_sub, mul_one] at hle
  exact hle.trans_lt (sub_lt_self _ (abs_pos.2 h))

theorem abs_lt_bound {lower : List K} {leading x : K} (h : leading ≠ 0)
    (hx : powerSum (lower ++ [leading]) x = 0) : |x| < bound lower leading := by
  by_contra hle
  have hlt := abs_powerSum_lt h (not_lt.1 hle)
  rw [powerSum_append_singleton, add_eq_zero_iff_eq_neg] at hx
  rw [hx, abs_neg] at hlt
  exact hlt.false

/-- From the bound on, the sign is that of the leading term. -/
theorem leading_mul_powerSum_pos {lower : List K} {leading x : K} (h : leading ≠ 0)
    (hx : bound lower leading ≤ |x|) :
    0 < leading * x ^ lower.length * powerSum (lower ++ [leading]) x := by
  have hlt := abs_powerSum_lt h hx
  have hterm : 0 < |leading * x ^ lower.length| := (abs_nonneg _).trans_lt hlt
  have hmixed : |leading * x ^ lower.length * powerSum lower x| <
      |leading * x ^ lower.length| * |leading * x ^ lower.length| := by
    rw [abs_mul]
    exact mul_lt_mul_of_pos_left hlt hterm
  rw [abs_mul_abs_self] at hmixed
  rw [powerSum_append_singleton, mul_add]
  exact neg_lt_iff_pos_add.1 (abs_lt.1 hmixed).1

theorem leading_mul_powerSum_bound_pos {lower : List K} {leading : K} (h : leading ≠ 0) :
    0 < leading * powerSum (lower ++ [leading]) (bound lower leading) := by
  have hb : 0 < bound lower leading := one_pos.trans_le (one_le_bound _ _)
  have hpos : 0 < leading * bound lower leading ^ lower.length * _ :=
    leading_mul_powerSum_pos h (le_abs_self _)
  rw [mul_right_comm] at hpos
  exact pos_of_mul_pos_left hpos (pow_pos hb _).le

theorem leading_mul_powerSum_neg_bound_neg {lower : List K} {leading : K} (h : leading ≠ 0)
    (hodd : Odd lower.length) :
    leading * powerSum (lower ++ [leading]) (-bound lower leading) < 0 := by
  have hb : 0 < bound lower leading := one_pos.trans_le (one_le_bound _ _)
  have hpos : 0 < leading * (-bound lower leading) ^ lower.length * _ :=
    leading_mul_powerSum_pos h ((le_abs_self _).trans_eq (abs_neg _).symm)
  rw [hodd.neg_pow, mul_neg, neg_mul, mul_right_comm, ← neg_mul] at hpos
  exact neg_pos.1 (pos_of_mul_pos_left hpos (pow_pos hb _).le)

theorem sign_powerSum {lower : List K} {leading x : K} (h : leading ≠ 0)
    (hx : bound lower leading ≤ |x|) :
    SignType.sign (powerSum (lower ++ [leading]) x) =
      SignType.sign (leading * x ^ lower.length) := by
  rcases pos_and_pos_or_neg_and_neg_of_mul_pos (leading_mul_powerSum_pos h hx) with hs | hs
  · rw [sign_pos hs.1, sign_pos hs.2]
  · rw [sign_neg hs.1, sign_neg hs.2]

theorem sign_powerSum_bound {lower : List K} {leading : K} (h : leading ≠ 0) :
    SignType.sign (powerSum (lower ++ [leading]) (bound lower leading)) =
      SignType.sign leading := by
  have hb : 0 < bound lower leading := one_pos.trans_le (one_le_bound _ _)
  rw [sign_powerSum h (le_abs_self _), sign_mul, sign_pos (pow_pos hb _), mul_one]

theorem sign_powerSum_neg_bound {lower : List K} {leading : K} (h : leading ≠ 0) :
    SignType.sign (powerSum (lower ++ [leading]) (-bound lower leading)) =
      SignType.sign ((-1) ^ lower.length * leading) := by
  have hb : 0 < bound lower leading := one_pos.trans_le (one_le_bound _ _)
  have hle : bound lower leading ≤ |-bound lower leading| :=
    (le_abs_self _).trans_eq (abs_neg _).symm
  rw [sign_powerSum h hle, neg_pow, ← mul_assoc, sign_mul, sign_pos (pow_pos hb _), mul_one,
    mul_comm]

section Exact

variable [Elementary K] (lower : List K) {leading : K}

omit [IsStrictOrderedRing K] in
/-- An undefined point is no root: the value there is undefined, or the leading coefficient. -/
theorem horner_undefined_ne_zero (h : leading ≠ 0) :
    horner ((lower ++ [leading]).map value) .undefined ≠ value 0 := by
  intro hzero
  cases lower with
  | nil => exact h (Exact.value.inj hzero)
  | cons c cs =>
    rw [List.cons_append, List.map_cons, List.map_append, List.map_singleton] at hzero
    cases hcs : cs.map value ++ [value leading] with
    | nil => exact List.append_ne_nil_of_right_ne_nil _ (List.cons_ne_nil _ _) hcs
    | cons d ds =>
      rw [hcs, horner, Exact.mulAdd_eq, Exact.mul_undefined, Exact.undefined_add] at hzero
      cases hzero

/-- All roots of a polynomial lie strictly between the bounds, and at these it has the sign that
its leading term has there. -/
theorem roots_between_bounds (h : leading ≠ 0) :
    (∀ r, horner ((lower ++ [leading]).map value) r = value 0 →
        -rootBound (lower.map value) (value leading) < r ∧
          r < rootBound (lower.map value) (value leading)) ∧
      (∃ v, horner ((lower ++ [leading]).map value)
          (rootBound (lower.map value) (value leading)) = value v ∧
        SignType.sign v = SignType.sign leading) ∧
      ∃ v, horner ((lower ++ [leading]).map value)
          (-rootBound (lower.map value) (value leading)) = value v ∧
        SignType.sign v = SignType.sign ((-1) ^ lower.length * leading) := by
  rw [rootBound_map lower h, Exact.value_neg, horner_map, horner_map]
  refine ⟨?_, ⟨_, rfl, sign_powerSum_bound h⟩, _, rfl, sign_powerSum_neg_bound h⟩
  intro r hr
  cases r with
  | undefined => exact absurd hr (horner_undefined_ne_zero lower h)
  | value x =>
    rw [horner_map] at hr
    exact abs_lt.1 (abs_lt_bound h (Exact.value.inj hr))

theorem roots_between_bounds_quadratic :
    (1 : ℝ) ≠ 0 ∧
      horner [value (-6), value (-1), value 1] (value (3 : ℝ)) = value 0 ∧
      rootBound [value (-6), value (-1)] (value (1 : ℝ)) = value 7 ∧
      -value 7 < value (3 : ℝ) ∧ value (3 : ℝ) < value 7 ∧
      ∃ v : ℝ, horner [value (-6), value (-1), value 1] (value 7) = value v ∧
        SignType.sign v = SignType.sign (1 : ℝ) := by
  have hroot : horner [value (-6), value (-1), value 1] (value (3 : ℝ)) = value 0 := by
    norm_num [horner]
  have hbound : rootBound [value (-6), value (-1)] (value (1 : ℝ)) = value 7 := by
    have hmap := rootBound_map [-6, -1] (one_ne_zero (α := ℝ))
    norm_num [bound] at hmap
    exact hmap
  have h := roots_between_bounds [-6, -1] (one_ne_zero (α := ℝ))
  rw [List.map_cons, List.map_singleton, hbound] at h
  obtain ⟨hlo, hhi⟩ := h.1 (value 3) hroot
  exact ⟨one_ne_zero, hroot, hbound, hlo, hhi, h.2.1⟩

end Exact

end Curves.Polynomial
