import Mathlib
import Curves.Proofs.Polynomial.Bound
import Curves.Proofs.Polynomial.Brackets
import Curves.Proofs.Polynomial.Brent
import Curves.Proofs.Polynomial.Quadratic

namespace Curves.Polynomial

universe u

open Exact (value)

section Levels

variable {α : Type u} [Scalar α] (solver : BracketSolver α)

/-- The knots that the search goes through. -/
def levelKnots (cs : List α) : List α :=
  knots (rootBound cs.dropLast (cs.getLastD 0))
    ((realRootsWith solver (derivativeCoefs cs)).getD [])

/-- The coefficients that the recursion searches brackets for. -/
inductive IsLevel : List α → List α → Prop where
  | top {coefs : List α} (h : 3 < (trimZeros coefs).length) : IsLevel coefs (trimZeros coefs)
  | derived {coefs cs : List α} (h : 3 < (trimZeros coefs).length)
      (hcs : IsLevel (derivativeCoefs (trimZeros coefs)) cs) : IsLevel coefs cs

/-- No value at a knot is rounded to zero. -/
def IsInert (cs : List α) : Prop :=
  ∀ x ∈ levelKnots solver cs, horner cs x ≠ 0 → snappedValue cs x ≠ 0

/-- The solver finds a root inside every bracket of neighbouring knots. -/
def FindsRoots (cs : List α) : Prop :=
  ∀ x y, [x, y] <:+: levelKnots solver cs → horner cs x * horner cs y < 0 →
    ∃ r, x < r ∧ r < y ∧ horner cs r = 0 ∧ solver (horner cs) x y = some r

variable {solver} {cs : List α} {x : α}

theorem snappedValue_eq (h : horner cs x ≠ 0 → snappedValue cs x ≠ 0) :
    snappedValue cs x = horner cs x := by
  rw [snappedValue] at h ⊢
  split_ifs with hsmall
  · by_contra hne
    exact h (Ne.symm hne) (if_pos hsmall)
  · rfl

theorem realRootsWith_eq (coefs : List α) :
    realRootsWith solver coefs =
      match trimZeros coefs with
      | [] => none
      | [_] => some []
      | [c, b] => some [-c / b]
      | [c, b, a] => some (quadraticRoots c b a)
      | cs => some (bracketRoots (solver (horner cs)) none
          ((levelKnots solver cs).map fun x => (x, snappedValue cs x))) := by
  rw [realRootsWith]
  split
  next htrim => rw [htrim]
  next htrim => rw [htrim]
  next htrim => rw [htrim]
  next htrim => rw [htrim]
  next htrim =>
    rw [htrim]
    rfl

theorem realRootsWith_search {coefs : List α} (h : 3 < (trimZeros coefs).length) :
    realRootsWith solver coefs =
      some (bracketRoots (solver (horner (trimZeros coefs))) none
        ((levelKnots solver (trimZeros coefs)).map
          fun x => (x, snappedValue (trimZeros coefs) x))) := by
  rw [realRootsWith_eq]
  split
  next htrim => simp [htrim] at h
  next htrim => simp [htrim] at h
  next htrim => simp [htrim] at h
  next htrim => simp [htrim] at h
  next => rfl

end Levels

section Closed

variable {K : Type u} [Field K] [LinearOrder K] {a b c : K}

theorem enumerates_constant (ha : a ≠ 0) : Enumerates [] (powerSum [a]) := by
  refine ⟨.nil, fun x => ⟨nofun, fun hx => ?_⟩⟩
  rw [powerSum_cons, powerSum_nil, zero_mul, zero_add] at hx
  exact absurd hx ha

theorem enumerates_linear (hb : b ≠ 0) : Enumerates [-c / b] (powerSum [c, b]) := by
  refine ⟨List.pairwise_singleton _ _, fun x => ?_⟩
  rw [List.mem_singleton, eq_div_iff hb, powerSum_cons, powerSum_cons, powerSum_nil, zero_mul,
    zero_add, add_eq_zero_iff_eq_neg, mul_comm]

theorem realRootsWith_closed [IsStrictOrderedRing K] [Elementary K] [LawfulRoot K]
    {solver : BracketSolver (Exact K)} {coefs : List (Exact K)} {lower : List K} {leading : K}
    (hcoefs : trimZeros coefs = (lower ++ [leading]).map value) (hlead : leading ≠ 0)
    (hlen : lower.length < 3) :
    ∃ rs : List K, realRootsWith solver coefs = some (rs.map value) ∧
      Enumerates rs (powerSum (lower ++ [leading])) := by
  rw [realRootsWith_eq, hcoefs]
  match lower with
  | [] => exact ⟨[], rfl, enumerates_constant hlead⟩
  | [c] =>
    refine ⟨[-c / leading], ?_, enumerates_linear hlead⟩
    exact congrArg (fun x => some [x]) (Exact.value_div (-c) hlead)
  | [c, b] =>
    obtain ⟨rs, hrs, henum⟩ := quadraticRoots_map hlead b c
    exact ⟨rs, congrArg some hrs, henum⟩

end Closed

section Search

variable {solver : BracketSolver (Exact ℝ)} {cs cs' lower crit ks : List ℝ} {leading : ℝ}

theorem levelKnots_map (hcs : cs = lower ++ [leading]) (hlead : leading ≠ 0)
    (hderiv : derivativeCoefs (cs.map value) = cs'.map value)
    (hroots : realRootsWith solver (cs'.map value) = some (crit.map value))
    (hcrit : crit.Pairwise (· < ·)) :
    levelKnots solver (cs.map value) =
      (-bound lower leading :: inner (bound lower leading) crit).map value := by
  have hb : 0 < bound lower leading := one_pos.trans_le (one_le_bound _ _)
  rw [levelKnots, hderiv, hroots, Option.getD_some, hcs, List.map_append, List.map_singleton,
    List.dropLast_concat, List.getLastD_concat, rootBound_map _ hlead, knots_map hb hcrit]

theorem values_of_isInert (hk : levelKnots solver (cs.map value) = ks.map value)
    (hi : IsInert solver (cs.map value)) :
    (levelKnots solver (cs.map value)).map (fun x => (x, snappedValue (cs.map value) x)) =
      sampled (powerSum cs) ks := by
  rw [hk, sampled, List.map_map]
  refine List.map_congr_left fun k hmem => ?_
  have hinert := hi (value k) (hk ▸ List.mem_map_of_mem hmem)
  rw [Function.comp_apply, snappedValue_eq hinert, horner_map]

theorem finds_of_findsRoots (hk : levelKnots solver (cs.map value) = ks.map value)
    (hs : FindsRoots solver (cs.map value)) {x y : ℝ} (hxy : [x, y] <:+: ks) :
    Finds (solver (horner (cs.map value))) (powerSum cs) x y := by
  intro hsign
  have hbracket : [value x, value y] <:+: levelKnots solver (cs.map value) := by
    rw [hk]
    exact hxy.map value
  have hsign' : horner (cs.map value) (value x) * horner (cs.map value) (value y) < 0 := by
    rwa [horner_map, horner_map, Exact.value_mul, Exact.zero_eq]
  obtain ⟨r, hxr, hry, hr, hsolve⟩ := hs _ _ hbracket hsign'
  cases r with
  | undefined => exact absurd hxr id
  | value r =>
    rw [horner_map, Exact.zero_eq] at hr
    exact ⟨r, hxr, hry, Exact.value.inj hr, hsolve⟩

/-- One level: with the roots of the derivative among the knots, the walk lists all roots. -/
theorem bracketRoots_levelKnots (hcs : cs = lower ++ [leading]) (hlead : leading ≠ 0)
    (hderiv : derivativeCoefs (cs.map value) = cs'.map value)
    (hF : ∀ x, HasDerivAt (powerSum cs) (powerSum cs' x) x)
    (hroots : realRootsWith solver (cs'.map value) = some (crit.map value))
    (hcrit : Enumerates crit (powerSum cs'))
    (hi : IsInert solver (cs.map value)) (hs : FindsRoots solver (cs.map value)) :
    ∃ rs : List ℝ,
      bracketRoots (solver (horner (cs.map value))) none ((levelKnots solver (cs.map value)).map
        fun x => (x, snappedValue (cs.map value) x)) = rs.map value ∧
      Enumerates rs (powerSum cs) := by
  have hb : 0 < bound lower leading := one_pos.trans_le (one_le_bound _ _)
  have hk := levelKnots_map hcs hlead hderiv hroots hcrit.ascending
  -- the critical points that count lie below some knot, hence inside the bound
  have hinner : HoldsCritical (powerSum cs') (-bound lower leading)
      (inner (bound lower leading) crit) := by
    rintro c hc hlo ⟨m, hm, hcm⟩
    have hhi := hcm.trans_le (le_of_mem_inner hm)
    exact mem_inner.2 (.inl ⟨(hcrit.mem_iff c).2 hc, hlo, hhi⟩)
  have hfinds (x y : ℝ)
      (hxy : [x, y] <:+: -bound lower leading :: inner (bound lower leading) crit) :=
    finds_of_findsRoots hk hs hxy
  have hfirst : ∀ l, none = some l → l < -bound lower leading := nofun
  obtain ⟨rs, hrs, hpair, hmem⟩ :=
    bracketRoots_sampled hF hfinds (pairwise_inner hb hcrit.ascending) hinner hfirst
  refine ⟨rs, ?_, hpair, fun x => ?_⟩
  · rw [values_of_isInert hk hi]
    exact hrs
  · rw [hmem]
    refine and_iff_left_of_imp fun hx => ?_
    have habs := abs_lt.1 (abs_lt_bound hlead (hcs ▸ hx))
    exact ⟨habs.1.le, _, mem_inner.2 (.inr rfl), habs.2⟩

end Search

section Cubic

def cubic : List ℝ :=
  [0, 1, 0, 1]

theorem powerSum_cubic (x : ℝ) : powerSum cubic x = x * x * x + x := by
  simp only [cubic, powerSum_cons, powerSum_nil]
  ring

theorem trimZeros_cubic : trimZeros (cubic.map value) = cubic.map value := by
  have hlast : trimmed cubic = cubic := List.rdropWhile_concat_neg _ [0, 1, 0] 1 (by simp)
  rw [trimZeros_map, hlast]

theorem derivativeCoefs_cubic :
    derivativeCoefs (cubic.map value) = ([1, 0, 3] : List ℝ).map value := by
  rw [cubic, derivativeCoefs_map]
  norm_num [weighted]

theorem trimZeros_derivativeCoefs_cubic :
    trimZeros (derivativeCoefs (cubic.map value)) = ([1, 0, 3] : List ℝ).map value := by
  have hlast : trimmed ([1, 0, 3] : List ℝ) = [1, 0, 3] :=
    List.rdropWhile_concat_neg _ [1, 0] 3 (by simp)
  rw [derivativeCoefs_cubic, trimZeros_map, hlast]

theorem eq_of_isLevel_cubic {cs : List (Exact ℝ)} (h : IsLevel (cubic.map value) cs) :
    cs = cubic.map value := by
  have hclosed : ¬3 < (trimZeros (derivativeCoefs (cubic.map value))).length := by
    rw [trimZeros_derivativeCoefs_cubic]
    decide
  cases h with
  | top => exact trimZeros_cubic
  | derived _ h =>
    rw [trimZeros_cubic] at h
    cases h with
    | top h => exact absurd h hclosed
    | derived h => exact absurd h hclosed

theorem levelKnots_cubic :
    levelKnots Brent.root (cubic.map value) = [value (-2), value 2] := by
  have hroots : realRootsWith Brent.root (([1, 0, 3] : List ℝ).map value) =
      some ([].map value) := by
    rw [← derivativeCoefs_cubic, realRootsWith_eq, trimZeros_derivativeCoefs_cubic]
    simp [quadraticRoots]
  have hcubic : cubic = [0, 1, 0] ++ [1] := rfl
  rw [levelKnots_map hcubic one_ne_zero derivativeCoefs_cubic hroots .nil]
  norm_num [bound, inner]

theorem snappedValue_cubic {x : ℝ} (hx : |x| = 2) :
    snappedValue (cubic.map value) (value x) = horner (cubic.map value) (value x) := by
  have htol : (zeroTolerance : Exact ℝ) = value (1 / 10000000000000) := by
    rw [zeroTolerance, Exact.one_eq, Exact.ofNat_eq, Exact.value_div _ (by norm_num)]
  have hsquare : x * x = 4 := by
    rw [← abs_mul_abs_self, hx]
    norm_num
  have hsize : |powerSum cubic x| = 10 := by
    have hfactor : powerSum cubic x = 5 * x := by
      rw [powerSum_cubic]
      linear_combination x * hsquare
    rw [hfactor, abs_mul, hx]
    norm_num
  have hscale : powerSum (cubic.map abs) (max |x| 1) = 10 := by
    have habs : cubic.map abs = cubic := by simp [cubic]
    rw [habs, powerSum_cubic, hx]
    norm_num
  rw [snappedValue, horner_map, termScale_map, Exact.magnitude_value, hsize, hscale, htol, if_neg]
  rw [Exact.value_mul, Exact.value_le]
  norm_num

theorem isInert_cubic : IsInert Brent.root (cubic.map value) := by
  intro x hx hne
  rw [levelKnots_cubic] at hx
  rcases List.mem_pair.1 hx with rfl | rfl
  · rwa [snappedValue_cubic (by norm_num)]
  · rwa [snappedValue_cubic (by norm_num)]

theorem findsRoots_cubic : FindsRoots Brent.root (cubic.map value) := by
  intro x y hxy _
  rw [levelKnots_cubic] at hxy
  cases hxy.eq_of_length rfl
  have hlo : horner (cubic.map value) (value (0 - 2)) = value (-10) := by
    rw [horner_map, powerSum_cubic]
    norm_num
  have hhi : horner (cubic.map value) (value (0 + 2)) = value 10 := by
    rw [horner_map, powerSum_cubic]
    norm_num
  have hmid : horner (cubic.map value) (value 0) = value 0 := by
    rw [horner_map, powerSum_cubic]
    norm_num
  have hroot := Brent.root_of_middle hlo hhi hmid (by norm_num) (by norm_num)
  rw [zero_sub, zero_add] at hroot
  refine ⟨value 0, ?_, ?_, ?_, hroot⟩
  · rw [Exact.value_lt]
    norm_num
  · rw [Exact.value_lt]
    norm_num
  · rw [hmid, Exact.zero_eq]

end Cubic

variable {solver : BracketSolver (Exact ℝ)} {coefs : List ℝ}

/-- With rounding inert and the solver exact at every level, the list holds all real roots. -/
theorem realRootsWith_enumerates (hne : ∃ c ∈ coefs, c ≠ 0)
    (hi : ∀ cs, IsLevel (coefs.map value) cs → IsInert solver cs)
    (hs : ∀ cs, IsLevel (coefs.map value) cs → FindsRoots solver cs) :
    ∃ rs : List ℝ, realRootsWith solver (coefs.map value) = some (rs.map value) ∧
      Enumerates rs (powerSum coefs) := by
  induction hn : coefs.length using Nat.strong_induction_on generalizing coefs with
  | _ n ih =>
  obtain ⟨lower, leading, hlead, htrim⟩ := exists_trimmed hne
  have hmap : trimZeros (coefs.map value) = (lower ++ [leading]).map value := by
    rw [trimZeros_map, htrim]
  rw [← funext (powerSum_trimmed coefs), htrim]
  rcases lt_or_ge lower.length 3 with hclosed | hsearch
  · exact realRootsWith_closed hmap hlead hclosed
  · have hlen : 3 < (trimZeros (coefs.map value)).length := by
      rw [hmap, List.length_map, List.length_append]
      exact Nat.lt_succ_of_le hsearch
    obtain ⟨c, b, rest, rfl⟩ : ∃ c b rest, lower = c :: b :: rest := by
      match lower, hsearch with
      | c :: b :: rest, _ => exact ⟨c, b, rest, rfl⟩
    have hderiv := derivativeCoefs_map c b (rest ++ [leading])
    have hlevel (cs : List (Exact ℝ))
        (hcs : IsLevel ((weighted 1 (b :: rest ++ [leading])).map value) cs) :
        IsLevel (coefs.map value) cs := by
      apply IsLevel.derived hlen
      rw [hmap]
      exact hderiv ▸ hcs
    have hshort : (weighted 1 (b :: rest ++ [leading])).length < n := by
      have htrimmed := length_trimZeros_le (coefs.map value)
      rw [hmap, List.length_map, List.length_map, hn] at htrimmed
      rw [length_weighted]
      exact htrimmed
    have hne' : ∃ d ∈ weighted 1 (b :: rest ++ [leading]), d ≠ 0 := by
      apply exists_weighted_ne_zero
      exact ⟨leading, List.mem_append_right _ (List.mem_singleton_self _), hlead⟩
    obtain ⟨crit, hroots, hcrit⟩ := ih _ hshort hne' (fun cs hcs => hi cs (hlevel cs hcs))
      (fun cs hcs => hs cs (hlevel cs hcs)) rfl
    have htop : IsLevel (coefs.map value) ((c :: b :: rest ++ [leading]).map value) := by
      rw [← hmap]
      exact .top hlen
    obtain ⟨rs, hrs, henum⟩ := bracketRoots_levelKnots rfl hlead hderiv
      (hasDerivAt_powerSum c _) hroots hcrit (hi _ htop) (hs _ htop)
    refine ⟨rs, ?_, henum⟩
    rw [realRootsWith_search hlen, hmap, hrs]

theorem realRootsWith_enumerates_cubic :
    ∃ rs : List ℝ, realRootsWith Brent.root (cubic.map value) = some (rs.map value) ∧
      Enumerates rs (powerSum cubic) := by
  apply realRootsWith_enumerates
  · exact ⟨1, by simp [cubic], one_ne_zero⟩
  · intro cs hcs
    rw [eq_of_isLevel_cubic hcs]
    exact isInert_cubic
  · intro cs hcs
    rw [eq_of_isLevel_cubic hcs]
    exact findsRoots_cubic

end Curves.Polynomial
