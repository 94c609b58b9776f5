import Mathlib
import Curves.Polynomial.Roots
import Curves.Proofs.Polynomial.Calculus

namespace Curves.Polynomial

universe u

open Exact (value)

section Field

variable {K : Type u} [Field K]

def powerSum (cs : List K) (x : K) : K :=
  ∑ i : Fin cs.length, cs[i] * x ^ (i : Nat)

theorem powerSum_nil (x : K) : powerSum [] x = 0 :=
  rfl

theorem powerSum_cons (c : K) (cs : List K) (x : K) :
    powerSum (c :: cs) x = powerSum cs x * x + c := by
  have hrest (i : Fin cs.length) : (c :: cs)[i.succ] * x ^ (i.succ : Nat) =
      cs[i] * x ^ (i : Nat) * x := by
    rw [Fin.val_succ, pow_succ, ← mul_assoc]
    rfl
  calc powerSum (c :: cs) x
      = c * x ^ 0 + ∑ i : Fin cs.length, (c :: cs)[i.succ] * x ^ (i.succ : Nat) :=
        Fin.sum_univ_succ _
    _ = powerSum cs x * x + c := by
        rw [Finset.sum_congr rfl fun i _ => hrest i, ← Finset.sum_mul, pow_zero, mul_one, add_comm]
        rfl

theorem powerSum_append_singleton (cs : List K) (c x : K) :
    powerSum (cs ++ [c]) x = powerSum cs x + c * x ^ cs.length := by
  induction cs with
  | nil =>
    rw [List.nil_append, powerSum_cons, powerSum_nil]
    simp
  | cons d cs ih =>
    rw [List.cons_append, powerSum_cons, powerSum_cons, ih, List.length_cons, pow_succ]
    ring

/-- The coefficients with their places for factors, the first place being `n`. -/
def weighted (n : Nat) (cs : List K) : List K :=
  (cs.zipIdx n).map fun (c, i) => (i : K) * c

theorem weighted_cons (n : Nat) (c : K) (cs : List K) :
    weighted n (c :: cs) = n * c :: weighted (n + 1) cs :=
  rfl

theorem length_weighted (n : Nat) (cs : List K) : (weighted n cs).length = cs.length := by
  rw [weighted, List.length_map, List.length_zipIdx]

theorem exists_weighted_ne_zero [CharZero K] {cs : List K} (h : ∃ c ∈ cs, c ≠ 0) (n : Nat) :
    ∃ c ∈ weighted (n + 1) cs, c ≠ 0 := by
  induction cs generalizing n with
  | nil =>
    obtain ⟨c, hc, -⟩ := h
    cases hc
  | cons d cs ih =>
    obtain ⟨c, hc, hne⟩ := h
    rw [weighted_cons]
    rcases List.mem_cons.1 hc with rfl | hc
    · exact ⟨_, List.mem_cons_self, mul_ne_zero (Nat.cast_ne_zero.2 n.succ_ne_zero) hne⟩
    · obtain ⟨e, he, hne'⟩ := ih ⟨c, hc, hne⟩ (n + 1)
      exact ⟨e, List.mem_cons_of_mem _ he, hne'⟩

theorem powerSum_weighted_succ (n : Nat) (cs : List K) (x : K) :
    powerSum (weighted (n + 1) cs) x = powerSum (weighted n cs) x + powerSum cs x := by
  induction cs generalizing n with
  | nil => exact (add_zero 0).symm
  | cons c cs ih =>
    rw [weighted_cons, weighted_cons, powerSum_cons, powerSum_cons, powerSum_cons, ih]
    push_cast
    ring

variable [LinearOrder K]

/-- The list holds the zeros of the function, each once and in ascending order. -/
structure Enumerates (zeros : List K) (F : K → K) : Prop where
  ascending : zeros.Pairwise (· < ·)
  mem_iff : ∀ x, x ∈ zeros ↔ F x = 0

variable [Elementary K]

theorem horner_map (cs : List K) (x : K) :
    horner (cs.map value) (value x) = value (powerSum cs x) := by
  induction cs with
  | nil => exact Exact.zero_eq
  | cons c cs ih =>
    rw [List.map_cons, horner_cons_value, ih, powerSum_cons]
    rfl

theorem termScale_map (cs : List K) (x : K) :
    termScale (cs.map value) (value x) = value (powerSum (cs.map abs) (max |x| 1)) := by
  induction cs with
  | nil => exact Exact.zero_eq
  | cons c cs ih =>
    rw [List.map_cons, List.map_cons, powerSum_cons]
    rw [termScale, List.foldr_cons, ← termScale, ih, Exact.magnitude_value, Exact.magnitude_value,
      Exact.one_eq, Exact.maximum_value]
    rfl

theorem snappedValue_map [CharZero K] (cs : List K) (x : K) :
    snappedValue (cs.map value) (value x) =
      if |powerSum cs x| ≤ 1 / 10000000000000 * powerSum (cs.map abs) (max |x| 1) then value 0
      else value (powerSum cs x) := by
  have htol : (zeroTolerance : Exact K) = value (1 / 10000000000000) := by
    rw [zeroTolerance, Exact.one_eq, Exact.ofNat_eq, Exact.value_div _ (by norm_num)]
  rw [snappedValue, horner_map, termScale_map, Exact.magnitude_value, htol, Exact.value_mul,
    Exact.zero_eq]
  simp only [Exact.value_le]

theorem derivativeCoefs_map (c d : K) (cs : List K) :
    derivativeCoefs ((c :: d :: cs).map value) = (weighted 1 (d :: cs)).map value := by
  rw [List.map_cons, List.map_cons, derivativeCoefs_cons_cons, ← List.map_cons, weighted,
    List.zipIdx_map, List.map_map, List.map_map]
  rfl

def trimmed (cs : List K) : List K :=
  cs.rdropWhile (· = 0)

theorem trimZeros_map (cs : List K) : trimZeros (cs.map value) = (trimmed cs).map value := by
  rw [trimZeros, trimmed, List.rdropWhile, ← List.map_reverse, List.dropWhile_map, List.map_reverse,
    Exact.zero_eq]
  rfl

omit [Elementary K] in
theorem powerSum_trimmed (cs : List K) (x : K) : powerSum (trimmed cs) x = powerSum cs x := by
  induction cs using List.reverseRecOn with
  | nil => rfl
  | append_singleton cs c ih =>
    rw [trimmed, List.rdropWhile_concat]
    split_ifs with hc
    · rw [powerSum_append_singleton, of_decide_eq_true hc, zero_mul, add_zero]
      exact ih
    · rfl

omit [Elementary K] in
theorem trimmed_append_cons {lower zeros : List K} {leading : K} (h : leading ≠ 0)
    (hzeros : ∀ c ∈ zeros, c = 0) : trimmed (lower ++ leading :: zeros) = lower ++ [leading] := by
  have hall : ∀ c ∈ zeros.reverse, decide (c = 0) = true :=
    fun c hc => decide_eq_true (hzeros c (List.mem_reverse.1 hc))
  rw [trimmed, List.rdropWhile, List.reverse_append, List.reverse_cons, List.append_assoc,
    List.dropWhile_append_of_pos hall, List.singleton_append,
    List.dropWhile_cons_of_neg (by simpa using h), List.reverse_cons, List.reverse_reverse]

omit [Elementary K] in
theorem exists_trimmed {cs : List K} (h : ∃ c ∈ cs, c ≠ 0) :
    ∃ lower leading, leading ≠ 0 ∧ trimmed cs = lower ++ [leading] := by
  have hne : trimmed cs ≠ [] := by
    obtain ⟨c, hc, hne⟩ := h
    intro hnil
    exact hne (of_decide_eq_true (List.rdropWhile_eq_nil_iff.1 hnil c hc))
  refine ⟨_, (trimmed cs).getLast hne, ?_, (List.dropLast_append_getLast hne).symm⟩
  intro hzero
  exact List.rdropWhile_last_not _ cs hne (decide_eq_true hzero)

end Field

theorem hasDerivAt_powerSum_cons {cs : List ℝ} {d x : ℝ} (h : HasDerivAt (powerSum cs) d x)
    (c : ℝ) : HasDerivAt (powerSum (c :: cs)) (d * x + powerSum cs x) x := by
  have hstep := (h.mul (hasDerivAt_id x)).add_const c
  rw [funext (powerSum_cons c cs)]
  apply hstep.congr_deriv
  rw [mul_one]
  rfl

theorem hasDerivAt_powerSum (c : ℝ) (cs : List ℝ) (x : ℝ) :
    HasDerivAt (powerSum (c :: cs)) (powerSum (weighted 1 cs) x) x := by
  induction cs generalizing c with
  | nil =>
    have hnil : HasDerivAt (powerSum []) 0 x := hasDerivAt_const x (0 : ℝ)
    apply (hasDerivAt_powerSum_cons hnil c).congr_deriv
    rw [zero_mul, zero_add]
    rfl
  | cons d cs ih =>
    apply (hasDerivAt_powerSum_cons (ih d) c).congr_deriv
    rw [weighted_cons, powerSum_cons, powerSum_cons, powerSum_weighted_succ 1]
    push_cast
    ring

end Curves.Polynomial
