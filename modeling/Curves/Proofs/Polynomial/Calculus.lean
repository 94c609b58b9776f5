import Curves.Polynomial
import Curves.Proofs.Exact

namespace Curves.Polynomial

open Scalar

universe u

section Scalars

variable {α : Type u} [Scalar α]

theorem derivativeCoefs_cons_cons (c d : α) (cs : List α) :
    derivativeCoefs (c :: d :: cs) = ((d :: cs).zipIdx 1).map fun (c, i) => ofNat i * c := by
  simp only [derivativeCoefs, List.length_cons, List.zipIdx_cons, List.tail_cons]
  rw [if_neg (by omega)]

theorem derivativeCoefs_mapConstant (g : α → α) (e : α) (cs : List α) :
    derivativeCoefs (mapConstant g e cs) = derivativeCoefs cs := by
  cases cs with
  | nil => rfl
  | cons c cs =>
    cases cs with
    | nil => rfl
    | cons d cs => rw [mapConstant, derivativeCoefs_cons_cons, derivativeCoefs_cons_cons]

theorem derivative_raise (p : Polynomial α) (v : α) : (p.raise v).derivative = p.derivative := by
  rw [derivative, raise, derivativeCoefs_mapConstant]
  rfl

theorem slope_raise (p : Polynomial α) (v x : α) : (p.raise v).slope x = p.slope x := by
  obtain ⟨cs, o⟩ := p
  cases cs with
  | nil => rfl
  | cons c cs => rfl

end Scalars

variable {K : Type u} [Field K] [LinearOrder K] [Elementary K]

open Exact (value)

structure IsDefined (p : Polynomial (Exact K)) : Prop where
  coefs : ∀ c ∈ p.coefs, c.IsValue
  origin : p.origin.IsValue

theorem isValue_horner {cs : List (Exact K)} (h : ∀ c ∈ cs, c.IsValue) {x : Exact K}
    (hx : x.IsValue) : (horner cs x).IsValue := by
  induction cs with
  | nil => exact ⟨0, Exact.zero_eq⟩
  | cons c cs ih =>
    obtain ⟨hc, hcs⟩ := List.forall_mem_cons.1 h
    cases cs with
    | nil => exact hc
    | cons d cs => exact ((ih hcs).mul hx).add hc

theorem IsDefined.isValue_eval {p : Polynomial (Exact K)} (h : p.IsDefined) (x : K) :
    (p.eval (value x)).IsValue :=
  isValue_horner h.coefs ((Exact.isValue_value x).sub h.origin)

theorem eval_raise (p : Polynomial (Exact K)) (v x : Exact K) :
    (p.raise v).eval x = p.eval x + v := by
  obtain ⟨cs, o⟩ := p
  cases cs with
  | nil =>
    simp only [eval, raise, mapConstant, horner, Exact.zero_eq]
    cases v <;> simp
  | cons c cs =>
    cases cs with
    | nil => rfl
    | cons d cs =>
      simp only [eval, raise, mapConstant, horner, Exact.mulAdd_eq]
      exact (Exact.add_assoc _ _ _).symm

theorem horner_cons_value (c : Exact K) (cs : List (Exact K)) (t : K) :
    horner (c :: cs) (value t) = mulAdd (horner cs (value t)) (value t) c := by
  cases cs with
  | nil =>
    rw [horner, horner, Exact.mulAdd_eq, Exact.zero_eq, Exact.value_mul, zero_mul, Exact.zero_add]
  | cons d cs => rfl

theorem horner_eq_foldr (cs : List (Exact K)) (t : K) :
    horner cs (value t) = cs.foldr (fun c acc => mulAdd acc (value t) c) 0 := by
  induction cs with
  | nil => rfl
  | cons c cs ih => rw [horner_cons_value, ih, List.foldr_cons]

/-- Integrating at a point is evaluating the antiderivative, unless there is nothing to add up
at an undefined point. -/
theorem integralAt_eq_eval {p : Polynomial (Exact K)} {x : Exact K}
    (h : p.coefs = [] → (x - p.origin).IsValue) (k : Exact K) :
    p.integralAt x k = (p.antiderivative k).eval x := by
  obtain ⟨cs, o⟩ := p
  rw [integralAt, eval, antiderivative, antiderivativeCoefs]
  cases hx : x - o with
  | value t => rw [horner_cons_value, horner_eq_foldr, List.foldr_map]
  | undefined =>
    cases cs with
    | nil =>
      obtain ⟨t, ht⟩ := h rfl
      rw [hx] at ht
      cases ht
    | cons c cs =>
      rw [List.zipIdx_cons, List.map_cons, horner, Exact.mulAdd_eq, Exact.mulAdd_eq,
        Exact.mul_undefined, Exact.mul_undefined]

theorem slope_eq_eval_derivative {p : Polynomial (Exact K)} {x : Exact K}
    (h : (x - p.origin).IsValue) : p.slope x = p.derivative.eval x := by
  obtain ⟨cs, o⟩ := p
  obtain ⟨t, ht⟩ := h
  rw [slope, eval, derivative, ht]
  cases cs with
  | nil => rfl
  | cons c cs =>
    cases cs with
    | nil => rfl
    | cons d cs =>
      rw [derivativeCoefs_cons_cons, horner_eq_foldr, List.foldr_map]
      rfl

variable [IsStrictOrderedRing K]

theorem ofNat_mul_div_ofNat {n : Nat} (hn : n ≠ 0) (c : Exact K) :
    (ofNat n : Exact K) * (c / ofNat n) = c := by
  rw [Exact.scalar_ofNat]
  exact Exact.value_mul_div (Nat.cast_ne_zero.2 hn) c

theorem IsDefined.antiderivative {p : Polynomial (Exact K)} (h : p.IsDefined) (k : K) :
    (p.antiderivative (value k)).IsDefined := by
  refine ⟨List.forall_mem_cons.2 ⟨Exact.isValue_value k, ?_⟩, h.origin⟩
  intro d hd
  obtain ⟨⟨c, i⟩, hc, rfl⟩ := List.mem_map.1 hd
  have hi : ((i + 1 : Nat) : K) ≠ 0 := Nat.cast_ne_zero.2 i.succ_ne_zero
  exact (h.coefs c (List.fst_mem_of_mem_zipIdx hc)).div hi

theorem map_mul_map_div (cs : List (Exact K)) (n : Nat) :
    (((cs.zipIdx n).map fun (c, i) => c / ofNat (i + 1)).zipIdx (n + 1)).map
      (fun (c, i) => ofNat i * c) = cs := by
  induction cs generalizing n with
  | nil => rfl
  | cons c cs ih =>
    simp only [List.zipIdx_cons, List.map_cons]
    rw [ofNat_mul_div_ofNat n.succ_ne_zero, ih]

theorem derivativeCoefs_antiderivativeCoefs (c : Exact K) (cs : List (Exact K)) (k : Exact K) :
    derivativeCoefs (antiderivativeCoefs (c :: cs) k) = c :: cs := by
  rw [antiderivativeCoefs, List.zipIdx_cons, List.map_cons, derivativeCoefs_cons_cons]
  exact map_mul_map_div (c :: cs) 0

/-- Differentiation undoes integration; the empty list of coefficients comes back as a zero. -/
theorem eval_derivative_antiderivative (p : Polynomial (Exact K)) (k x : Exact K) :
    (p.antiderivative k).derivative.eval x = p.eval x := by
  obtain ⟨cs, o⟩ := p
  cases cs with
  | nil => rfl
  | cons c cs => rw [derivative, antiderivative, derivativeCoefs_antiderivativeCoefs]

end Curves.Polynomial
