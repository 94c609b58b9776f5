import Mathlib
import Curves.Spline
import Curves.Proofs.Curve.Domain

namespace Curves

universe u v

def ControlPoint.map {α : Type u} {β : Type v} (g : α → β) (p : ControlPoint α) : ControlPoint β :=
  ⟨g p.x, g p.y, p.slope?.map g⟩

namespace Spline

variable {K : Type u} [Field K] [LinearOrder K] {p q : ControlPoint K} {s x m a : K}

open Exact (value)

def middle (p q : ControlPoint K) : K :=
  (p.x + q.x) / 2

def rise (p q : ControlPoint K) : K :=
  (q.y - p.y) / (q.x - p.x)

omit [LinearOrder K] in
theorem rise_comm (p q : ControlPoint K) : rise p q = rise q p := by
  rw [rise, rise, ← neg_sub p.y, ← neg_sub p.x, neg_div_neg_eq]

omit [LinearOrder K] in
theorem middle_comm (p q : ControlPoint K) : middle p q = middle q p := by
  rw [middle, middle, add_comm]

def IsExtremum (before here after : K) : Prop :=
  (before < here ∧ after < here) ∨ (here < before ∧ here < after)

instance (before here after : K) : Decidable (IsExtremum before here after) :=
  inferInstanceAs (Decidable (_ ∨ _))

omit [Field K] in
theorem isExtremum_comm (a b c : K) : IsExtremum a b c ↔ IsExtremum c b a := by
  rw [IsExtremum, IsExtremum, and_comm, @and_comm (b < a)]

section Middle

variable [IsStrictOrderedRing K] (h : p.x < q.x)

include h

theorem left_lt_middle : p.x < middle p q :=
  left_lt_add_div_two.2 h

theorem middle_lt_right : middle p q < q.x :=
  add_div_two_lt_right.2 h

end Middle

variable [Elementary K]

theorem secant_value (h : p.x < q.x) :
    secant (p.map value) (q.map value) = value (rise p q) :=
  Exact.value_div _ (sub_ne_zero.2 h.ne')

def innerRise (options : Options) (o p q : ControlPoint K) : K :=
  if options.preserveExtrema ∧ IsExtremum o.y p.y q.y then 0
  else if options.atanMean then
    Elementary.tan ((Elementary.atan (rise o p) + Elementary.atan (rise p q)) / (1 + 1))
  else (rise o p + rise p q) / (1 + 1)

theorem innerRise_comm (options : Options) (o p q : ControlPoint K) :
    innerRise options o p q = innerRise options q p o := by
  simp only [innerRise, isExtremum_comm o.y, rise_comm o, rise_comm p q, add_comm]

/-- The slopes that half of a span has at its control point and at the middle of the span, given
the slope of the secant and, where there is one, that of the spline here and at the other end. -/
def halfSlopes (i : K) : Option K → Option K → K × K
  | some s, some e => (s, i + i - (s + e) / (1 + 1))
  | some s, none => (s, i)
  | none, some e => (i + i - e, i)
  | none, none => (i, i)

theorem isLocalExtremum_value (a b c : K) :
    isLocalExtremum (value a) (value b) (value c) = decide (IsExtremum a b c) := by
  rw [Bool.eq_iff_iff, decide_eq_true_eq, IsExtremum]
  simp only [isLocalExtremum, Exact.value_lt, Bool.or_eq_true, Bool.and_eq_true, decide_eq_true_eq]

theorem innerRise_of_mean (h : options.atanMean = false) (o p q : ControlPoint K) :
    innerRise options o p q =
      if options.preserveExtrema ∧ IsExtremum o.y p.y q.y then 0
      else (rise o p + rise p q) / 2 := by
  rw [innerRise, h, if_neg Bool.false_ne_true, one_add_one_eq_two]

/-- The parabola around the control point `p` with slope `s` there and slope `m` at `x`. -/
def half (p : ControlPoint K) (s x m : K) : Curve (Exact K) :=
  .polynomial ⟨[value p.y, value s, value ((m - s) / (2 * (x - p.x)))], value p.x⟩

theorem eval_half : (half p s x m).eval (value a) =
    value (((m - s) / (2 * (x - p.x)) * (a - p.x) + s) * (a - p.x) + p.y) := by
  simp only [half, Curve.eval, Polynomial.eval, Polynomial.horner, Exact.mulAdd_eq,
    Exact.value_sub, Exact.value_mul, Exact.value_add]

theorem slope_half : (half p s x m).slope (value a) =
    value (2 * ((m - s) / (2 * (x - p.x))) * (a - p.x) + s) := by
  simp [half, Curve.slope, Polynomial.slope]

theorem isTotal_half : (half p s x m).IsTotal := by
  intro a
  rw [eval_half]
  exact Exact.isValue_value _

theorem eval_half_anchor : (half p s x m).eval (value p.x) = value p.y := by
  rw [eval_half, sub_self, mul_zero, zero_add]

theorem slope_half_anchor : (half p s x m).slope (value p.x) = value s := by
  rw [slope_half, sub_self, mul_zero, zero_add]

variable [IsStrictOrderedRing K]

theorem value_div_two (a : K) : (value a / value 2 : Exact K) = value (a / 2) :=
  Exact.value_div a two_ne_zero

theorem innerSlope_eq (options : Options) {o : ControlPoint K} (ho : o.x < p.x) (hq : p.x < q.x) :
    innerSlope options (o.map value) (p.map value) (q.map value) =
      value (innerRise options o p q) := by
  have hextremum : isLocalExtremum (o.map value).y (p.map value).y (q.map value).y =
      decide (IsExtremum o.y p.y q.y) := isLocalExtremum_value o.y p.y q.y
  rw [innerSlope, innerRise, secant_value ho, secant_value hq, hextremum]
  simp only [Bool.and_eq_true, decide_eq_true_eq, Exact.zero_eq, Exact.ofNat_eq, Exact.value_add,
    Exact.atan_value, value_div_two, Exact.tan_value, one_add_one_eq_two, apply_ite value]

/-- A slope agrees with the one that is given, if one is. -/
def Agrees (s : K) (given? : Option K) : Prop :=
  ∀ d, given? = some d → s = d

omit [LinearOrder K] [Elementary K] [IsStrictOrderedRing K] in
theorem agrees_halfSlopes (i : K) (s? e? : Option K) : Agrees (halfSlopes i s? e?).1 s? := by
  intro d hd
  subst hd
  cases e? <;> rfl

omit [Elementary K] in
/-- The mean of the slopes over the span is the slope of the secant. -/
theorem halfSlopes_mean (i : K) (s? e? : Option K) :
    (halfSlopes i s? e?).1 + 2 * (halfSlopes i s? e?).2 + (halfSlopes i e? s?).1 = 4 * i := by
  cases s? with
  | none =>
    cases e? with
    | none =>
      simp only [halfSlopes]
      ring
    | some e =>
      simp only [halfSlopes]
      ring
  | some s =>
    cases e? with
    | none =>
      simp only [halfSlopes]
      ring
    | some e =>
      simp only [halfSlopes, one_add_one_eq_two]
      ring

theorem spanSlopes_eq (i : K) (s? e? : Option K) :
    spanSlopes (value i) (s?.map value) (e?.map value) =
      (value (halfSlopes i s? e?).1, value (halfSlopes i s? e?).2,
        value (halfSlopes i e? s?).1) := by
  have htwice (a : K) : 4 * i - a - 2 * i = i + i - a := by ring
  have hmean (a b : K) : (4 * i - a - b) / 2 = i + i - (a + b) / (1 + 1) := by ring
  cases s? with
  | none =>
    cases e? with
    | none => rfl
    | some e => simp [spanSlopes, halfSlopes, htwice]
  | some s =>
    cases e? with
    | none => simp [spanSlopes, halfSlopes, htwice]
    | some e => simp [spanSlopes, halfSlopes, hmean, value_div_two]

omit [LinearOrder K] [Elementary K] [IsStrictOrderedRing K] in
theorem halfSlopes_middle (i : K) (s? e? : Option K) :
    (halfSlopes i s? e?).2 = (halfSlopes i e? s?).2 := by
  cases s? with
  | none => cases e? <;> rfl
  | some s =>
    cases e? with
    | none => rfl
    | some e => rw [halfSlopes, halfSlopes, add_comm s]

theorem halfSpan_value (hx : x - p.x ≠ 0) :
    Curve.polynomial (halfSpan (p.map value) (value s) (value x) (value m)) = half p s x m := by
  have h2 : 2 * (x - p.x) ≠ 0 := mul_ne_zero two_ne_zero hx
  simp only [halfSpan, half, ControlPoint.map, Exact.ofNat_eq, Exact.value_sub, Exact.value_mul,
    Exact.value_div _ h2]

theorem eval_half_middle (hx : x - p.x ≠ 0) :
    (half p s x m).eval (value x) = value (p.y + (s + m) / 2 * (x - p.x)) := by
  rw [eval_half]
  apply congrArg
  field_simp
  ring

theorem slope_half_middle (hx : x - p.x ≠ 0) : (half p s x m).slope (value x) = value m := by
  rw [slope_half]
  apply congrArg
  field_simp
  ring

theorem span_eq (h : p.x < q.x) (s? e? : Option K) :
    span (p.map value) (q.map value) (s?.map value) (e?.map value) =
      [⟨value p.x, value (middle p q), half p (halfSlopes (rise p q) s? e?).1 (middle p q)
          (halfSlopes (rise p q) s? e?).2⟩,
        ⟨value (middle p q), value q.x, half q (halfSlopes (rise p q) e? s?).1 (middle p q)
          (halfSlopes (rise p q) e? s?).2⟩] := by
  have hp : middle p q - p.x ≠ 0 := sub_ne_zero.2 (left_lt_middle h).ne'
  have hq : middle p q - q.x ≠ 0 := sub_ne_zero.2 (middle_lt_right h).ne
  have hm : ((p.map value).x + (q.map value).x) / 2 = value (middle p q) := by
    rw [Exact.ofNat_eq]
    exact value_div_two _
  rw [span, secant_value h, spanSlopes_eq, hm]
  simp only [halfSpan_value hp]
  rw [halfSlopes_middle, halfSpan_value hq]
  rfl

theorem span_value (h : p.x < q.x) (begin? end? : Option K) :
    ∃ b m e, span (p.map value) (q.map value) (begin?.map value) (end?.map value) =
        [⟨value p.x, value (middle p q), half p b (middle p q) m⟩,
          ⟨value (middle p q), value q.x, half q e (middle p q) m⟩] ∧
      (b + 2 * m + e) * (q.x - p.x) = 4 * (q.y - p.y) ∧ Agrees b begin? ∧ Agrees e end? := by
  refine ⟨_, (halfSlopes (rise p q) begin? end?).2, _, ?_, ?_,
    agrees_halfSlopes (rise p q) begin? end?, agrees_halfSlopes (rise p q) end? begin?⟩
  · rw [span_eq h, halfSlopes_middle (rise p q) end?]
  · rw [halfSlopes_mean, rise, mul_assoc, div_mul_cancel₀ _ (sub_ne_zero.2 h.ne')]

end Spline
end Curves
