import Mathlib
import Curves.Proofs.Polynomial.RealRoots

namespace Curves.Polynomial

universe u

open Exact (value)

variable {K : Type u}

structure IsQuadratic (p : Polynomial (Exact K)) : Prop extends IsDefined p where
  length_le : p.coefs.length ≤ 3

theorem IsQuadratic.exists_eq {p : Polynomial (Exact K)} (h : p.IsQuadratic) :
    ∃ (cs : List K) (o : K), cs.length ≤ 3 ∧ p = ⟨cs.map value, value o⟩ := by
  obtain ⟨⟨hcoefs, ho⟩, hlen⟩ := h
  obtain ⟨coefs, origin⟩ := p
  obtain ⟨cs, rfl⟩ := Exact.exists_map_value hcoefs
  obtain ⟨o, rfl⟩ := ho
  refine ⟨cs, o, ?_, rfl⟩
  rwa [List.length_map] at hlen

theorem isQuadratic_map (cs : List K) (o : K) (h : cs.length ≤ 3) :
    IsQuadratic ⟨cs.map value, value o⟩ := by
  refine ⟨⟨?_, Exact.isValue_value o⟩, ?_⟩
  · exact List.forall_mem_map.2 fun c _ => Exact.isValue_value c
  · rwa [List.length_map]

theorem length_mapConstant_le (g : K → K) (e : K) {cs : List K} {n : Nat} (h : cs.length ≤ n + 1) :
    (mapConstant g e cs).length ≤ n + 1 := by
  cases cs with
  | nil => exact Nat.succ_le_succ n.zero_le
  | cons c cs => exact h

variable [Field K]

theorem powerSum_mapConstant_sub (cs : List K) (v x : K) :
    powerSum (mapConstant (· - v) (0 - v) cs) x = powerSum cs x - v := by
  cases cs with
  | nil =>
    rw [mapConstant, powerSum_cons, powerSum_nil, zero_mul, zero_add]
  | cons c cs =>
    rw [mapConstant, powerSum_cons, powerSum_cons, add_sub_assoc]

variable [LinearOrder K]

theorem powerSum_of_trimmed_eq_nil {cs : List K} (h : trimmed cs = []) (x : K) :
    powerSum cs x = 0 := by
  rw [← powerSum_trimmed, h, powerSum_nil]

variable [Elementary K]

theorem mapConstant_map (cs : List K) (v : K) :
    mapConstant (· - value v) (0 - value v) (cs.map value) =
      (mapConstant (· - v) (0 - v) cs).map value := by
  cases cs with
  | nil =>
    rw [Exact.zero_eq]
    rfl
  | cons c cs => rfl

theorem eval_map (cs : List K) (o x : K) :
    eval ⟨cs.map value, value o⟩ (value x) = value (powerSum cs (x - o)) := by
  rw [eval, Exact.value_sub, horner_map]

theorem solve_constant (solver : BracketSolver (Exact K)) (c o v : K) :
    solveWith solver ⟨[value c], value o⟩ (value v) = if c = v then none else some [] := by
  rw [solveWith, realRootsWith_eq]
  by_cases hcv : c = v
  · simp [mapConstant, trimZeros, hcv]
  · simp [mapConstant, trimZeros, sub_eq_zero, hcv]

variable [IsStrictOrderedRing K] [LawfulRoot K]

theorem realRoots_closed (solver : BracketSolver (Exact K)) {cs : List K} (hlen : cs.length ≤ 3) :
    (realRootsWith solver (cs.map value) = none ∧ ∀ x, powerSum cs x = 0) ∨
      ∃ rs : List K, realRootsWith solver (cs.map value) = some (rs.map value) ∧
        Enumerates rs (powerSum cs) := by
  by_cases hne : ∃ c ∈ cs, c ≠ 0
  · right
    obtain ⟨lower, leading, hlead, htrim⟩ := exists_trimmed hne
    have hshort : lower.length < 3 := by
      have hle := (List.rdropWhile_prefix (· = 0) cs).length_le
      rw [← trimmed, htrim, List.length_append] at hle
      exact Nat.lt_of_succ_le (hle.trans hlen)
    have hmap : trimZeros (cs.map value) = (lower ++ [leading]).map value := by
      rw [trimZeros_map, htrim]
    rw [← funext (powerSum_trimmed cs), htrim]
    exact realRootsWith_closed hmap hlead hshort
  · left
    have htrim : trimmed cs = [] := by
      rw [trimmed, List.rdropWhile_eq_nil_iff]
      intro c hc
      by_contra hzero
      exact hne ⟨c, hc, by simpa using hzero⟩
    refine ⟨?_, powerSum_of_trimmed_eq_nil htrim⟩
    rw [realRootsWith_eq, trimZeros_map, htrim]
    rfl

theorem IsQuadratic.solve_cases {p : Polynomial (Exact K)} (h : p.IsQuadratic)
    (solver : BracketSolver (Exact K)) (v : K) :
    (p.solveWith solver (value v) = none ∧ ∀ x, p.eval (value x) = value v) ∨
      ∃ rs : List K, p.solveWith solver (value v) = some (rs.map value) ∧ rs.Pairwise (· < ·) ∧
        ∀ x, x ∈ rs ↔ p.eval (value x) = value v := by
  obtain ⟨cs, o, hlen, rfl⟩ := h.exists_eq
  have hsolve : solveWith solver ⟨cs.map value, value o⟩ (value v) =
      (realRootsWith solver ((mapConstant (· - v) (0 - v) cs).map value)).map
        fun roots => roots.map (· + value o) := by
    rw [solveWith, mapConstant_map]
  have hzero (x : K) : powerSum (mapConstant (· - v) (0 - v) cs) (x - o) = 0 ↔
      eval ⟨cs.map value, value o⟩ (value x) = value v := by
    rw [powerSum_mapConstant_sub, sub_eq_zero, eval_map, Exact.value.injEq]
  rcases realRoots_closed solver (length_mapConstant_le (· - v) (0 - v) hlen) with
    ⟨hnone, hall⟩ | ⟨rs, hrs, henum⟩
  · left
    refine ⟨?_, fun x => (hzero x).1 (hall (x - o))⟩
    rw [hsolve, hnone]
    rfl
  · right
    refine ⟨rs.map (· + o), ?_, ?_, ?_⟩
    · rw [hsolve, hrs, Option.map_some, List.map_map, List.map_map]
      rfl
    · rw [List.pairwise_map]
      exact henum.ascending.imp fun h => add_lt_add_left h o
    · intro x
      rw [← hzero, ← henum.mem_iff, List.mem_map]
      constructor
      · rintro ⟨r, hr, rfl⟩
        rwa [add_sub_cancel_right]
      · intro hx
        exact ⟨x - o, hx, sub_add_cancel x o⟩

end Curves.Polynomial
