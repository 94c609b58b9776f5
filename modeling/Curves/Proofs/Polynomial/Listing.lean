import Mathlib
import Curves.Proofs.Polynomial.OddDegree

namespace Curves.Polynomial

universe u

open Exact (value)

section Scalars

variable {α : Type u} [Scalar α]

/-- What the solver finds in a bracket of neighbouring knots is a root between them. -/
def IsReliable (solver : BracketSolver α) (cs : List α) : Prop :=
  ∀ x y, [x, y] <:+: levelKnots solver cs → snappedValue cs x * snappedValue cs y < 0 →
    ∀ r ∈ solver (horner cs) x y, x ≤ r ∧ r ≤ y ∧ horner cs r = 0

theorem skipRepeats_sublist (x : α) (xs : List α) : (skipRepeats x xs).Sublist xs := by
  induction xs generalizing x with
  | nil => exact List.Sublist.slnil
  | cons y ys ih =>
    rw [skipRepeats]
    split_ifs
    · exact (ih x).cons y
    · exact (ih y).cons_cons y

theorem knots_sublist (b : α) (crit : List α) :
    (knots b crit).Sublist
      ((-b :: crit.filter (fun x => -b < x && x < b) ++ [b]).mergeSort Scalar.totalLE) := by
  rw [knots]
  split
  next hsort => rw [hsort]
  next x xs hsort =>
    rw [hsort]
    exact (skipRepeats_sublist x xs).cons_cons x

theorem length_knots_le (b : α) (crit : List α) : (knots b crit).length ≤ crit.length + 2 := by
  apply (knots_sublist b crit).length_le.trans
  rw [List.length_mergeSort, List.length_append, List.length_cons, List.length_singleton]
  exact Nat.add_le_add_right (crit.length_filter_le _) 2

theorem length_quadraticRoots_le (c b a : α) : (quadraticRoots c b a).length ≤ 2 := by
  rw [quadraticRoots]
  dsimp only
  split_ifs <;> simp

/-- Between two neighbouring knots at most one point is reported: the first knot, where its value
counts for zero, or what the solver finds. -/
theorem bracketRoots_cons_cons (solve : α → α → Option α) (last : Option α) (x v y w : α)
    (rest : List (α × α)) :
    ∃ (found : Option α) (last' : Option α),
      bracketRoots solve last ((x, v) :: (y, w) :: rest) =
        found.toList ++ bracketRoots solve last' ((y, w) :: rest) ∧
      ∀ r ∈ found, (r = x ∧ v == 0) ∨ (v * w < 0 ∧ r ∈ solve x y) := by
  rw [bracketRoots]
  have hnone (P : α → Prop) : ∀ r ∈ (none : Option α), P r :=
    fun r hr => absurd hr (Option.not_mem_none r)
  split_ifs with hv hlast hneg
  · exact ⟨none, last, rfl, hnone _⟩
  · refine ⟨some x, some x, rfl, ?_⟩
    intro r hr
    cases hr
    exact .inl ⟨rfl, hv⟩
  · cases hr : solve x y with
    | none => exact ⟨none, last, rfl, hnone _⟩
    | some r =>
      refine ⟨some r, some r, rfl, ?_⟩
      intro r' hr'
      cases hr'
      exact .inr ⟨hneg, rfl⟩
  · exact ⟨none, last, rfl, hnone _⟩

end Scalars

variable {K : Type u} [Field K] [LinearOrder K]

def IsNearRoot (tol : K) (cs : List K) (x : K) : Prop :=
  |powerSum cs x| ≤ tol * powerSum (cs.map abs) (max |x| 1)

/-- What a list of reported roots looks like. -/
structure IsListing (tol : K) (lower : List K) (leading : K) (rs : List K) : Prop where
  ascending : rs.Pairwise (· ≤ ·)
  length_le : rs.length ≤ lower.length
  near : ∀ r ∈ rs, IsNearRoot tol (lower ++ [leading]) r
  within : 3 ≤ lower.length → ∀ r ∈ rs, -bound lower leading ≤ r ∧ r ≤ bound lower leading

variable [Elementary K]

section Walk

variable {solve : Exact K → Exact K → Option (Exact K)} {G : K → Exact K} {P : K → Prop}
  {k b : K} {ks : List K}

theorem exists_bracketRoots (hasc : (k :: ks).Pairwise (· ≤ ·)) (hb : ∀ m ∈ k :: ks, m ≤ b)
    (hzero : ∀ m, G m == 0 → P m)
    (hsolve : ∀ x y, [x, y] <:+: k :: ks → G x * G y < 0 →
      ∀ r ∈ solve (value x) (value y), ∃ a, r = value a ∧ x ≤ a ∧ a ≤ y ∧ P a)
    (last : Option (Exact K)) :
    ∃ rs : List K,
      bracketRoots solve last ((k :: ks).map fun x => (value x, G x)) = rs.map value ∧
      rs.Pairwise (· ≤ ·) ∧ rs.length ≤ ks.length ∧ ∀ r ∈ rs, k ≤ r ∧ r ≤ b ∧ P r := by
  induction ks generalizing k last with
  | nil => exact ⟨[], rfl, .nil, le_rfl, List.forall_mem_nil _⟩
  | cons m ks ih =>
    obtain ⟨hk, hks⟩ := List.pairwise_cons.1 hasc
    obtain ⟨-, hbm⟩ := List.forall_mem_cons.1 hb
    have hkm : k ≤ m := hk m List.mem_cons_self
    have hsolve' := fun x y hxy => hsolve x y (List.infix_cons hxy)
    obtain ⟨found, last', hstep, hfound⟩ :=
      bracketRoots_cons_cons solve last (value k) (G k) (value m) (G m)
        (ks.map fun x => (value x, G x))
    obtain ⟨rs, hrs, hpair, hlen, hmem⟩ := ih hks hbm hsolve' last'
    have hwalk : bracketRoots solve last ((k :: m :: ks).map fun x => (value x, G x)) =
        found.toList ++ rs.map value := by
      rw [← hrs]
      exact hstep
    have hrest : ∀ r ∈ rs, k ≤ r ∧ r ≤ b ∧ P r := by
      intro r hr
      obtain ⟨hmr, hrb, hP⟩ := hmem r hr
      exact ⟨hkm.trans hmr, hrb, hP⟩
    cases found with
    | none => exact ⟨rs, hwalk, hpair, Nat.le_succ_of_le hlen, hrest⟩
    | some r =>
      -- what is found before `m` is not above it, all that follows is not below
      obtain ⟨a, rfl, hka, ham, hP⟩ : ∃ a, r = value a ∧ k ≤ a ∧ a ≤ m ∧ P a := by
        rcases hfound r rfl with ⟨hr, hv⟩ | ⟨hneg, hr⟩
        · exact ⟨k, hr, le_rfl, hkm, hzero k hv⟩
        · exact hsolve k m ⟨[], ks, rfl⟩ hneg r hr
      refine ⟨a :: rs, hwalk, ?_, Nat.succ_le_succ hlen, ?_⟩
      · apply List.pairwise_cons.2
        exact ⟨fun c hc => ham.trans (hmem c hc).1, hpair⟩
      · intro c hc
        rcases List.mem_cons.1 hc with rfl | hc
        · exact ⟨hka, ham.trans (hbm m List.mem_cons_self), hP⟩
        · exact hrest c hc

end Walk

variable {solver : BracketSolver (Exact K)} {coefs cs lower : List K} {leading tol x : K}

theorem length_le_of_closed (hcoefs : trimZeros (coefs.map value) = (lower ++ [leading]).map value)
    (hlen : lower.length < 3) {rs : List (Exact K)}
    (hrs : realRootsWith solver (coefs.map value) = some rs) : rs.length ≤ lower.length := by
  rw [realRootsWith_eq, hcoefs] at hrs
  match lower with
  | [] =>
    cases hrs
    exact le_rfl
  | [c] =>
    cases hrs
    exact le_rfl
  | [c, b] =>
    cases hrs
    exact length_quadraticRoots_le _ _ _

theorem levelKnots_eq (solver : BracketSolver (Exact K)) (hlead : leading ≠ 0)
    (hcs : cs = lower ++ [leading]) :
    levelKnots solver (cs.map value) = knots (value (bound lower leading))
      ((realRootsWith solver (derivativeCoefs (cs.map value))).getD []) := by
  have hlast : (cs.map value).getLastD 0 = value leading := by
    rw [hcs, List.map_append, List.map_singleton, List.getLastD_concat]
  have hinit : (cs.map value).dropLast = lower.map value := by
    rw [hcs, List.map_append, List.map_singleton, List.dropLast_concat]
  rw [levelKnots, hlast, hinit, rootBound_map _ hlead]

variable [IsStrictOrderedRing K]

omit [Elementary K] in
theorem isNearRoot_of_eq_zero (htol : 0 ≤ tol) (h : powerSum cs x = 0) : IsNearRoot tol cs x := by
  have hnonneg {m : K} (hm : 0 ≤ m) (cs : List K) : 0 ≤ powerSum (cs.map abs) m := by
    induction cs with
    | nil => exact le_rfl
    | cons c cs ih =>
      rw [List.map_cons, powerSum_cons]
      exact add_nonneg (mul_nonneg ih hm) (abs_nonneg c)
  have hm : (0 : K) ≤ max |x| 1 := zero_le_one.trans (le_max_right _ _)
  rw [IsNearRoot, h, abs_zero]
  exact mul_nonneg htol (hnonneg hm cs)

theorem isNearRoot_of_snapped (h : snappedValue (cs.map value) (value x) == 0) :
    IsNearRoot (1 / 10000000000000) cs x := by
  rw [snappedValue_map] at h
  split_ifs at h with hsmall
  · exact hsmall
  · rw [Exact.zero_eq, Exact.value_beq] at h
    exact isNearRoot_of_eq_zero (by norm_num) (of_decide_eq_true h)

theorem exists_ascending_knots {b : K} (hb : 0 < b) (crit : List (Exact K)) :
    ∃ mid : List K, knots (value b) crit = (-b :: (mid ++ [b])).map value ∧
      (-b :: (mid ++ [b])).Pairwise (· ≤ ·) ∧ mid.length ≤ crit.length := by
  obtain ⟨mid, hmid⟩ := exists_knots hb crit
  obtain ⟨inside, hinside, -⟩ := exists_filter b crit
  have hknots : knots (value b) crit = (-b :: (mid ++ [b])).map value := by
    rw [hmid, ← List.cons_append, List.map_append, List.map_singleton]
  have hlist : -value b :: crit.filter (fun x => -value b < x && x < value b) ++ [value b] =
      (-b :: inside ++ [b]).map value := by
    rw [hinside, List.map_append, List.map_cons]
    rfl
  have hsub := knots_sublist (value b) crit
  rw [hlist, Exact.mergeSort_map_value, hknots] at hsub
  obtain ⟨ks, hks, heq⟩ := List.sublist_map_iff.1 hsub
  have hvalue : Function.Injective (value (K := K)) := fun _ _ => Exact.value.inj
  refine ⟨mid, hknots, ?_, ?_⟩
  · rw [List.map_injective_iff.2 hvalue heq]
    exact (List.pairwise_mergeSort' _ _).sublist hks
  · have hlen := length_knots_le (value b) crit
    rw [hknots, List.length_map, List.length_cons, List.length_append,
      List.length_singleton] at hlen
    omega

theorem exists_listing_closed [LawfulRoot K] (htrim : trimmed coefs = lower ++ [leading])
    (hlead : leading ≠ 0) (hlen : lower.length < 3) :
    ∃ rs : List K, realRootsWith solver (coefs.map value) = some (rs.map value) ∧
      IsListing (1 / 10000000000000) lower leading rs := by
  have hmap : trimZeros (coefs.map value) = (lower ++ [leading]).map value := by
    rw [trimZeros_map, htrim]
  have hclosed : ∃ rs : List K, realRootsWith solver (coefs.map value) = some (rs.map value) ∧
      Enumerates rs (powerSum (lower ++ [leading])) :=
    realRootsWith_closed hmap hlead hlen
  obtain ⟨rs, hrs, henum⟩ := hclosed
  refine ⟨rs, hrs, henum.ascending.imp le_of_lt, ?_, ?_, ?_⟩
  · have hle := length_le_of_closed hmap hlen hrs
    rwa [List.length_map] at hle
  · intro r hr
    exact isNearRoot_of_eq_zero (by norm_num) ((henum.mem_iff r).1 hr)
  · intro h
    exact absurd h hlen.not_ge

theorem IsReliable.exists_near (hs : IsReliable solver (cs.map value)) {ks : List K}
    (hks : levelKnots solver (cs.map value) = ks.map value) (x y : K) (hxy : [x, y] <:+: ks)
    (hneg : snappedValue (cs.map value) (value x) * snappedValue (cs.map value) (value y) < 0)
    (r : Exact K) (hr : r ∈ solver (horner (cs.map value)) (value x) (value y)) :
    ∃ a, r = value a ∧ x ≤ a ∧ a ≤ y ∧ IsNearRoot (1 / 10000000000000) cs a := by
  have hbracket : [value x, value y] <:+: levelKnots solver (cs.map value) := by
    rw [hks]
    exact hxy.map value
  obtain ⟨hxr, hry, hroot⟩ := hs _ _ hbracket hneg r hr
  cases r with
  | undefined => exact absurd hxr (Exact.not_le_undefined _)
  | value a =>
    rw [horner_map, Exact.zero_eq, Exact.value.injEq] at hroot
    exact ⟨a, rfl, hxr, hry, isNearRoot_of_eq_zero (by norm_num) hroot⟩

/-- One level: with fewer critical points than the degree, no more roots than the degree. -/
theorem exists_listing_search (hcs : cs = lower ++ [leading]) (hlead : leading ≠ 0)
    {crit : List (Exact K)}
    (hcrit : realRootsWith solver (derivativeCoefs (cs.map value)) = some crit)
    (hlen : crit.length < lower.length) (hs : IsReliable solver (cs.map value)) :
    ∃ rs : List K,
      bracketRoots (solver (horner (cs.map value))) none ((levelKnots solver (cs.map value)).map
        fun x => (x, snappedValue (cs.map value) x)) = rs.map value ∧
      IsListing (1 / 10000000000000) lower leading rs := by
  have hb : 0 < bound lower leading := one_pos.trans_le (one_le_bound _ _)
  obtain ⟨mid, hmid, hasc, hmidlen⟩ := exists_ascending_knots hb crit
  have hknots : levelKnots solver (cs.map value) =
      (-bound lower leading :: (mid ++ [bound lower leading])).map value := by
    rw [levelKnots_eq solver hlead hcs, hcrit, Option.getD_some, hmid]
  have hle : ∀ m ∈ -bound lower leading :: (mid ++ [bound lower leading]),
      m ≤ bound lower leading := by
    intro m hm
    rw [← List.cons_append] at hm hasc
    rcases List.mem_append.1 hm with hm | hm
    · exact (List.pairwise_append.1 hasc).2.2 m hm _ (List.mem_singleton_self _)
    · exact (List.mem_singleton.1 hm).le
  obtain ⟨rs, hrs, hpair, hrslen, hmem⟩ := exists_bracketRoots hasc hle
    (fun _ => isNearRoot_of_snapped) (hs.exists_near hknots) none
  refine ⟨rs, ?_, hpair, ?_, ?_, ?_⟩
  · rw [hknots, List.map_map]
    exact hrs
  · rw [List.length_append] at hrslen
    exact hrslen.trans (Nat.succ_le_of_lt (hmidlen.trans_lt hlen))
  · intro r hr
    rw [← hcs]
    exact (hmem r hr).2.2
  · intro _ r hr
    obtain ⟨hlo, hhi, -⟩ := hmem r hr
    exact ⟨hlo, hhi⟩

omit [Field K] [LinearOrder K] [Elementary K] [IsStrictOrderedRing K] in
theorem exists_eq_cons_cons {lower : List K} (hlen : 3 ≤ lower.length) :
    ∃ c b rest, lower = c :: b :: rest := by
  match lower, hlen with
  | c :: b :: rest, _ => exact ⟨c, b, rest, rfl⟩

theorem exists_derivative_level (htrim : trimmed coefs = lower ++ [leading]) (hlead : leading ≠ 0)
    (hlen : 3 ≤ lower.length) :
    ∃ cs : List K, derivativeCoefs ((lower ++ [leading]).map value) = cs.map value ∧
      cs.length = lower.length ∧ (∃ c ∈ cs, c ≠ 0) ∧
      ∀ cs', IsLevel (cs.map value) cs' → IsLevel (coefs.map value) cs' := by
  obtain ⟨c, b, rest, rfl⟩ := exists_eq_cons_cons hlen
  have hderiv := derivativeCoefs_map c b (rest ++ [leading])
  have hmap : trimZeros (coefs.map value) = (c :: b :: rest ++ [leading]).map value := by
    rw [trimZeros_map, htrim]
  refine ⟨weighted 1 (b :: rest ++ [leading]), hderiv, ?_, ?_, ?_⟩
  · rw [length_weighted, List.length_append]
    rfl
  · apply exists_weighted_ne_zero
    exact ⟨leading, List.mem_append_right _ (List.mem_singleton_self _), hlead⟩
  · intro cs' hcs'
    apply IsLevel.derived
    · rw [hmap, List.length_map, List.length_append]
      exact Nat.lt_succ_of_le hlen
    · rw [hmap]
      exact hderiv ▸ hcs'

omit [Elementary K] [IsStrictOrderedRing K] in
theorem length_lower_lt (htrim : trimmed coefs = lower ++ [leading]) :
    lower.length < coefs.length := by
  have hle : (trimmed coefs).length ≤ coefs.length := (List.rdropWhile_prefix _ _).length_le
  rw [htrim, List.length_append] at hle
  exact hle

/-- With a solver that finds nothing but roots, what is reported is in order, no longer than the
degree, within the bound, and has a small value at each of its points. -/
theorem realRootsWith_isListing [LawfulRoot K] (hne : ∃ c ∈ coefs, c ≠ 0)
    (hs : ∀ cs, IsLevel (coefs.map value) cs → IsReliable solver cs) :
    ∃ lower leading, ∃ rs : List K, trimmed coefs = lower ++ [leading] ∧ leading ≠ 0 ∧
      realRootsWith solver (coefs.map value) = some (rs.map value) ∧
      IsListing (1 / 10000000000000) lower leading rs := by
  induction hn : coefs.length using Nat.strong_induction_on generalizing coefs with
  | _ n ih =>
  obtain ⟨lower, leading, hlead, htrim⟩ := exists_trimmed hne
  have hlower : lower.length < n := hn ▸ length_lower_lt htrim
  rcases lt_or_ge lower.length 3 with hclosed | hsearch
  · obtain ⟨rs, hrs, hlist⟩ := exists_listing_closed htrim hlead hclosed
    exact ⟨lower, leading, rs, htrim, hlead, hrs, hlist⟩
  · obtain ⟨cs, hderiv, hcslen, hcsne, hlevel⟩ := exists_derivative_level htrim hlead hsearch
    obtain ⟨lower', leading', crit, htrim', -, hcrit, hcritlist⟩ :=
      ih cs.length (hcslen ▸ hlower) hcsne (fun cs' hcs' => hs cs' (hlevel cs' hcs')) rfl
    have hcritlen : (crit.map value).length < lower.length := by
      rw [List.length_map, ← hcslen]
      exact hcritlist.length_le.trans_lt (length_lower_lt htrim')
    have hmap : trimZeros (coefs.map value) = (lower ++ [leading]).map value := by
      rw [trimZeros_map, htrim]
    have hlen : 3 < (trimZeros (coefs.map value)).length := by
      rw [hmap, List.length_map, List.length_append]
      exact Nat.lt_succ_of_le hsearch
    have htop : IsReliable solver ((lower ++ [leading]).map value) := by
      apply hs
      rw [← hmap]
      exact .top hlen
    rw [← hderiv] at hcrit
    obtain ⟨rs, hrs, hlist⟩ := exists_listing_search rfl hlead hcrit hcritlen htop
    refine ⟨lower, leading, rs, htrim, hlead, ?_, hlist⟩
    rw [realRootsWith_search hlen, hmap, hrs]

omit [IsStrictOrderedRing K] in
theorem mul_lt_zero_of_snapped {cs : List (Exact K)} {x y : Exact K}
    (h : snappedValue cs x * snappedValue cs y < 0) : horner cs x * horner cs y < 0 := by
  have hleft (v : Exact K) : ¬0 * v < 0 := by
    cases v with
    | undefined => exact id
    | value a => simp
  have hright (v : Exact K) : ¬v * 0 < 0 := by
    rw [Exact.mul_comm]
    exact hleft v
  rw [snappedValue, snappedValue] at h
  split_ifs at h with hx hy hy
  · exact absurd h (hleft 0)
  · exact absurd h (hleft _)
  · exact absurd h (hright _)
  · exact h

omit [IsStrictOrderedRing K] in
theorem FindsRoots.isReliable {cs : List (Exact K)} (h : FindsRoots solver cs) :
    IsReliable solver cs := by
  have le_of_lt {x y : Exact K} (hxy : x < y) : x ≤ y := by
    cases x with
    | undefined => exact hxy
    | value a =>
      cases y with
      | undefined => exact hxy
      | value b => exact hxy.le
  intro x y hxy hneg r hr
  obtain ⟨s, hxs, hsy, hroot, hs⟩ := h x y hxy (mul_lt_zero_of_snapped hneg)
  obtain rfl : s = r := Option.some.inj (hs.symm.trans hr)
  exact ⟨le_of_lt hxs, le_of_lt hsy, hroot⟩

theorem realRootsWith_isListing_cubic :
    (∃ c ∈ cubic, c ≠ 0) ∧
      (∀ cs, IsLevel (cubic.map value) cs → IsReliable Brent.root cs) ∧
      ∃ lower leading, ∃ rs : List ℝ, trimmed cubic = lower ++ [leading] ∧ leading ≠ 0 ∧
        realRootsWith Brent.root (cubic.map value) = some (rs.map value) ∧
        IsListing (1 / 10000000000000) lower leading rs := by
  have hne : ∃ c ∈ cubic, c ≠ 0 := ⟨1, by simp [cubic], one_ne_zero⟩
  have hs : ∀ cs, IsLevel (cubic.map value) cs → IsReliable Brent.root cs := by
    intro cs hcs
    rw [eq_of_isLevel_cubic hcs]
    exact findsRoots_cubic.isReliable
  exact ⟨hne, hs, realRootsWith_isListing hne hs⟩

end Curves.Polynomial
