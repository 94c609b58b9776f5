import Mathlib
import Curves.Proofs.Exact.Lawful
import Curves.Proofs.Polynomial.Value

namespace Curves.Polynomial

universe u

open Exact (value)

variable {K : Type u} [Field K] [LinearOrder K] [IsStrictOrderedRing K] {a b c q x : K}

theorem quadratic_of_discriminant_neg (h : b * b - 4 * a * c < 0) : powerSum [c, b, a] x ≠ 0 := by
  intro hx
  have hsq := sq_nonneg (2 * a * x + b)
  simp only [powerSum_cons, powerSum_nil] at hx
  have : (2 * a * x + b) ^ 2 = b * b - 4 * a * c := by linear_combination 4 * a * hx
  rw [this] at hsq
  exact h.not_ge hsq

theorem quadratic_of_discriminant_zero (ha : a ≠ 0) (h : b * b - 4 * a * c = 0) :
    powerSum [c, b, a] x = 0 ↔ x = -b / (2 * a) := by
  have h2a : 2 * a ≠ 0 := mul_ne_zero two_ne_zero ha
  have h4a : 4 * a ≠ 0 := mul_ne_zero four_ne_zero ha
  have hsq : 4 * a * powerSum [c, b, a] x = (2 * a * x + b) ^ 2 := by
    simp only [powerSum_cons, powerSum_nil]
    linear_combination -h
  rw [eq_div_iff h2a, ← mul_eq_zero_iff_left h4a, hsq, sq_eq_zero_iff,
    add_eq_zero_iff_eq_neg, mul_comm x]

theorem quadratic_factors (ha : a ≠ 0) (hq : q ≠ 0) (h : q * q + b * q + a * c = 0) :
    powerSum [c, b, a] x = 0 ↔ x = q / a ∨ x = c / q := by
  have hfactor : powerSum [c, b, a] x = a * ((x - q / a) * (x - c / q)) := by
    simp only [powerSum_cons, powerSum_nil]
    field_simp
    linear_combination x * h
  rw [hfactor, mul_eq_zero, or_iff_right ha, mul_eq_zero, sub_eq_zero, sub_eq_zero]

/-- What the closed form divides by `a`, with `s` for the sign of `b` and `r` for the root of the
discriminant. -/
def pivot (b s r : K) : K :=
  -(1 / (1 + 1)) * (b + s * r)

section Pivot

variable {r s : K} (hs : s * s = 1)

include hs

theorem pivot_solves (hr : r * r = b * b - 4 * a * c) :
    pivot b s r * pivot b s r + b * pivot b s r + a * c = 0 := by
  rw [pivot]
  linear_combination (1 / 4 : K) * hr + (1 / 4 : K) * r * r * hs

theorem pivot_ne_zero (hb : 0 ≤ s * b) (hr : 0 < r) : pivot b s r ≠ 0 := by
  intro hq
  rw [pivot] at hq
  have hsum : s * b + r = 0 := by linear_combination (-2 : K) * s * hq - r * hs
  exact (add_pos_of_nonneg_of_pos hb hr).ne' hsum

/-- The two roots differ, or the discriminant would be zero. -/
theorem pivot_div_ne (ha : a ≠ 0) (hq : pivot b s r ≠ 0) (hr : r * r = b * b - 4 * a * c)
    (hr0 : 0 < r) : pivot b s r / a ≠ c / pivot b s r := by
  intro h
  rw [div_eq_div_iff ha hq] at h
  have hsolves := pivot_solves hs hr
  have hdouble : pivot b s r * (2 * pivot b s r + b) = 0 := by linear_combination hsolves + h
  have hmiddle := (mul_eq_zero.1 hdouble).resolve_left hq
  rw [pivot] at hmiddle
  have hzero : r = 0 := by linear_combination -s * hmiddle - r * hs
  exact hr0.ne' hzero

theorem enumerates_pivot (ha : a ≠ 0) (hb : 0 ≤ s * b) (hr : r * r = b * b - 4 * a * c)
    (hr0 : 0 < r) :
    Enumerates (if pivot b s r / a ≤ c / pivot b s r then [pivot b s r / a, c / pivot b s r]
      else [c / pivot b s r, pivot b s r / a]) (powerSum [c, b, a]) := by
  have hq := pivot_ne_zero hs hb hr0
  have hne := pivot_div_ne hs ha hq hr hr0
  have hfactors (x : K) := quadratic_factors (x := x) ha hq (pivot_solves hs hr)
  split_ifs with hle
  · refine ⟨List.pairwise_pair.2 (hle.lt_of_ne hne), ?_⟩
    intro x
    rw [List.mem_pair, hfactors]
  · refine ⟨List.pairwise_pair.2 (not_le.1 hle), ?_⟩
    intro x
    rw [List.mem_pair, hfactors, or_comm]

end Pivot

def side (b : K) : K :=
  if b < 0 then -1 else 1

omit [IsStrictOrderedRing K] in
theorem side_mul_side (b : K) : side b * side b = 1 := by
  rw [side]
  split_ifs
  · ring
  · ring

theorem side_mul_nonneg (b : K) : 0 ≤ side b * b := by
  rw [side]
  split_ifs with h
  · linarith
  · linarith

variable [Elementary K] [LawfulRoot K]

theorem quadraticRoots_map (ha : a ≠ 0) (b c : K) :
    ∃ rs, quadraticRoots (value c) (value b) (value a) = rs.map value ∧
      Enumerates rs (powerSum [c, b, a]) := by
  have hdisc : (value b * value b - 4 * value a * value c : Exact K) =
      value (b * b - 4 * a * c) := rfl
  rw [quadraticRoots, hdisc, Exact.zero_eq, Exact.value_beq]
  rcases lt_trichotomy (b * b - 4 * a * c) 0 with hneg | hzero | hpos
  · refine ⟨[], if_pos hneg, .nil, ?_⟩
    exact fun x => ⟨nofun, fun hx => absurd hx (quadratic_of_discriminant_neg hneg)⟩
  · have h2a : 2 * a ≠ 0 := mul_ne_zero two_ne_zero ha
    refine ⟨[-b / (2 * a)], ?_, List.pairwise_singleton _ _, ?_⟩
    · rw [if_neg ((Exact.value_lt _ _).not.2 hzero.not_lt), if_pos (decide_eq_true hzero),
        Exact.ofNat_eq, Exact.value_mul, Exact.value_neg, Exact.value_div _ h2a]
      rfl
    · exact fun x => List.mem_singleton.trans (quadratic_of_discriminant_zero ha hzero).symm
  · have hroot := LawfulSqrt.sqrt_mul_sqrt _ hpos.le
    have hroot0 := (LawfulRoot.sqrt_nonneg _ hpos.le).lt_of_ne' (sqrt_ne_zero hpos)
    have hpivot : (-(1 / 2) * (value b + Scalar.signum (value b) *
        Elementary.sqrt (value (b * b - 4 * a * c))) : Exact K) =
        value (pivot b (side b) (Elementary.sqrt (b * b - 4 * a * c))) := by
      rw [Exact.sqrt_value hpos.le, Exact.one_eq, Exact.ofNat_eq, Exact.value_div _ two_ne_zero,
        pivot, one_add_one_eq_two]
      rfl
    have hs := side_mul_side b
    have hb := side_mul_nonneg b
    have hq := pivot_ne_zero hs hb hroot0
    refine ⟨_, ?_, enumerates_pivot hs ha hb hroot hroot0⟩
    rw [if_neg ((Exact.value_lt _ _).not.2 hpos.not_gt), if_neg (by simpa using hpos.ne'), hpivot]
    dsimp only
    rw [Exact.value_div _ ha, Exact.value_div _ hq, apply_ite (List.map value)]
    rfl

end Curves.Polynomial
