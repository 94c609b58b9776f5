import Mathlib
import Curves.Polynomial.Roots
import Curves.Proofs.Exact.Real

namespace Curves.Polynomial

universe u

open Exact (value)

section Knots

variable {K : Type u} [Field K] [LinearOrder K] {b : K} {crit : List K}

/-- What the bounds enclose, and the upper bound. -/
def inner (b : K) (crit : List K) : List K :=
  crit.filter (fun x => -b < x ∧ x < b) ++ [b]

theorem mem_inner {x : K} : x ∈ inner b crit ↔ (x ∈ crit ∧ -b < x ∧ x < b) ∨ x = b := by
  simp [inner]

theorem le_of_mem_inner {x : K} (hx : x ∈ inner b crit) : x ≤ b := by
  rcases mem_inner.1 hx with ⟨-, -, hhi⟩ | rfl
  · exact hhi.le
  · exact le_rfl

theorem lt_of_mem_inner [IsStrictOrderedRing K] (hb : 0 < b) {x : K} (hx : x ∈ inner b crit) :
    -b < x := by
  rcases mem_inner.1 hx with ⟨-, hlo, -⟩ | rfl
  · exact hlo
  · exact neg_lt_self hb

theorem pairwise_inner [IsStrictOrderedRing K] (hb : 0 < b) (hcrit : crit.Pairwise (· < ·)) :
    (-b :: inner b crit).Pairwise (· < ·) := by
  apply List.pairwise_cons.2
  constructor
  · intro x
    exact lt_of_mem_inner hb
  · refine List.pairwise_append.2 ⟨hcrit.filter _, List.pairwise_singleton _ _, ?_⟩
    intro x hx y hy
    rw [List.mem_singleton.1 hy]
    exact (of_decide_eq_true (List.mem_filter.1 hx).2).2

variable [Elementary K]

theorem skipRepeats_map {x : K} {xs : List K} (h : (x :: xs).Pairwise (· < ·)) :
    skipRepeats (value x) (xs.map value) = xs.map value := by
  induction xs generalizing x with
  | nil => rfl
  | cons y ys ih =>
    obtain ⟨hx, hys⟩ := List.pairwise_cons.1 h
    have hne : x ≠ y := (hx y List.mem_cons_self).ne
    rw [List.map_cons, skipRepeats, Exact.value_beq, if_neg (by simpa using hne), ih hys]

theorem knots_map [IsStrictOrderedRing K] (hb : 0 < b) (hcrit : crit.Pairwise (· < ·)) :
    knots (value b) (crit.map value) = (-b :: inner b crit).map value := by
  have hsorted := pairwise_inner hb hcrit
  have hlist : -value b :: (crit.map value).filter (fun x => -value b < x && x < value b) ++
      [value b] = (-b :: inner b crit).map value := by
    rw [inner, List.filter_map, List.map_cons, List.map_append, List.map_singleton]
    simp only [Function.comp_def, Bool.decide_and, Exact.value_neg, Exact.value_lt]
    rfl
  have hle : ((-b :: inner b crit).map value).Pairwise
      fun x y : Exact K => Scalar.totalLE x y = true := by
    rw [List.pairwise_map]
    exact hsorted.imp fun h => decide_eq_true h.le
  rw [knots, hlist, List.mergeSort_of_pairwise hle, List.map_cons]
  dsimp only
  rw [skipRepeats_map hsorted]

end Knots

variable {F F' : ℝ → ℝ} {x y z : ℝ}

/-- A range of the axis with no critical point inside. -/
structure IsStretch (F : ℝ → ℝ) (x y : ℝ) : Prop where
  lt : x < y
  continuous : Continuous F
  injOn : Set.InjOn F (Set.Icc x y)

theorem isStretch (hF : ∀ x, HasDerivAt F (F' x) x) (h : x < y)
    (hc : ∀ c, x < c → c < y → F' c ≠ 0) : IsStretch F x y := by
  have hcont : Continuous F := continuous_iff_continuousAt.2 fun x => (hF x).continuousAt
  refine ⟨h, hcont, ?_⟩
  have hne (a b : ℝ) (ha : x ≤ a) (hab : a < b) (hb : b ≤ y) : F a ≠ F b := by
    intro heq
    obtain ⟨c, hc', hzero⟩ := exists_hasDerivAt_eq_zero hab hcont.continuousOn heq fun z _ => hF z
    exact hc c (ha.trans_lt hc'.1) (hc'.2.trans_le hb) hzero
  intro a ha b hb heq
  rcases lt_trichotomy a b with hab | hab | hab
  · exact absurd heq (hne a b ha.1 hab hb.2)
  · exact hab
  · exact absurd heq.symm (hne b a hb.1 hab ha.2)

theorem IsStretch.eq_of_zero (h : IsStretch F x y) {a b : ℝ} (ha : x ≤ a ∧ a < y)
    (hb : x ≤ b ∧ b < y) (hFa : F a = 0) (hFb : F b = 0) : a = b :=
  h.injOn ⟨ha.1, ha.2.le⟩ ⟨hb.1, hb.2.le⟩ (hFa.trans hFb.symm)

theorem IsStretch.mul_neg (h : IsStretch F x y) (hx : x < z) (hy : z < y) (hz : F z = 0) :
    F x * F y < 0 := by
  have hxm : x ∈ Set.Icc x y := ⟨le_rfl, h.lt.le⟩
  have hzm : z ∈ Set.Icc x y := ⟨hx.le, hy.le⟩
  have hym : y ∈ Set.Icc x y := ⟨h.lt.le, le_rfl⟩
  rcases h.continuous.continuousOn.strictMonoOn_of_injOn_Icc' h.lt.le h.injOn with hmono | hanti
  · have hFx := hmono hxm hzm hx
    have hFy := hmono hzm hym hy
    rw [hz] at hFx hFy
    exact mul_neg_of_neg_of_pos hFx hFy
  · have hFx := hanti hxm hzm hx
    have hFy := hanti hzm hym hy
    rw [hz] at hFx hFy
    exact mul_neg_of_pos_of_neg hFx hFy

/-- The solver finds a zero strictly between two numbers where the function has opposite signs. -/
def Finds (solve : Exact ℝ → Exact ℝ → Option (Exact ℝ)) (F : ℝ → ℝ) (x y : ℝ) : Prop :=
  F x * F y < 0 → ∃ r, x < r ∧ r < y ∧ F r = 0 ∧ solve (value x) (value y) = some (value r)

def sampled (F : ℝ → ℝ) (ks : List ℝ) : List (Exact ℝ × Exact ℝ) :=
  ks.map fun k => (value k, value (F k))

variable {solve : Exact ℝ → Exact ℝ → Option (Exact ℝ)} {last : Option ℝ} {k m : ℝ} {ks : List ℝ}

/-- What the walk does on one stretch: it reports the zero there, or passes on. -/
theorem bracketRoots_stretch (h : IsStretch F k m) (hs : Finds solve F k m)
    (hlast : ∀ l, last = some l → l < k) :
    (∃ r, F r = 0 ∧ k ≤ r ∧ r < m ∧
        bracketRoots solve (last.map value) (sampled F (k :: m :: ks)) =
          value r :: bracketRoots solve ((some r).map value) (sampled F (m :: ks))) ∨
      (∀ r, k ≤ r → r < m → F r ≠ 0) ∧
        bracketRoots solve (last.map value) (sampled F (k :: m :: ks)) =
          bracketRoots solve (last.map value) (sampled F (m :: ks)) := by
  simp only [sampled, List.map_cons]
  rw [bracketRoots, Exact.zero_eq, Exact.value_beq]
  by_cases hk : F k = 0
  · left
    refine ⟨k, hk, le_rfl, h.lt, ?_⟩
    rw [if_pos (decide_eq_true hk)]
    have hne : (last.map value == some (value k)) = false := by
      cases last with
      | none => rfl
      | some l => exact decide_eq_false (hlast l rfl).ne
    rw [hne]
    rfl
  · rw [if_neg (by simpa using hk)]
    by_cases hsign : F k * F m < 0
    · left
      obtain ⟨r, hkr, hrm, hr, hsolve⟩ := hs hsign
      refine ⟨r, hr, hkr.le, hrm, ?_⟩
      rw [Exact.value_mul, if_pos ((Exact.value_lt _ _).2 hsign), hsolve]
      rfl
    · right
      refine ⟨?_, ?_⟩
      · intro r hkr hrm hr
        have hne : k ≠ r := by
          rintro rfl
          exact hk hr
        exact hsign (h.mul_neg (hkr.lt_of_ne hne) hrm hr)
      · rw [Exact.value_mul, if_neg ((Exact.value_lt _ _).not.2 hsign)]

/-- From the first knot on, and below one of the others. -/
def Within (k : ℝ) (ks : List ℝ) (x : ℝ) : Prop :=
  k ≤ x ∧ ∃ m ∈ ks, x < m

theorem within_cons (h : k < m) : Within k (m :: ks) x ↔ (k ≤ x ∧ x < m) ∨ Within m ks x := by
  constructor
  · rintro ⟨hkx, n, hn, hxn⟩
    rcases lt_or_ge x m with hxm | hmx
    · exact .inl ⟨hkx, hxm⟩
    · rcases List.mem_cons.1 hn with rfl | hn
      · exact absurd hxn hmx.not_gt
      · exact .inr ⟨hmx, n, hn, hxn⟩
  · rintro (⟨hkx, hxm⟩ | ⟨hmx, n, hn, hxn⟩)
    · exact ⟨hkx, m, List.mem_cons_self, hxm⟩
    · exact ⟨h.le.trans hmx, n, List.mem_cons_of_mem m hn, hxn⟩

/-- The critical points within the knots are knots. -/
def HoldsCritical (F' : ℝ → ℝ) (k : ℝ) (ks : List ℝ) : Prop :=
  ∀ c, F' c = 0 → k < c → (∃ m ∈ ks, c < m) → c ∈ ks

theorem HoldsCritical.isStretch (h : HoldsCritical F' k (m :: ks))
    (hF : ∀ x, HasDerivAt F (F' x) x) (hk : (k :: m :: ks).Pairwise (· < ·)) :
    IsStretch F k m := by
  obtain ⟨hfirst, hm⟩ := List.pairwise_cons.1 hk
  apply Polynomial.isStretch hF (hfirst m List.mem_cons_self)
  intro c hkc hcm hzero
  rcases List.mem_cons.1 (h c hzero hkc ⟨m, List.mem_cons_self, hcm⟩) with rfl | hmem
  · exact hcm.false
  · exact ((List.pairwise_cons.1 hm).1 c hmem).not_gt hcm

theorem HoldsCritical.of_cons (h : HoldsCritical F' k (m :: ks)) (hkm : k < m) :
    HoldsCritical F' m ks := by
  rintro c hzero hmc ⟨n, hn, hcn⟩
  have hmem := h c hzero (hkm.trans hmc) ⟨n, List.mem_cons_of_mem m hn, hcn⟩
  exact (List.mem_cons.1 hmem).resolve_left hmc.ne'

/-- The walk over all knots reports every zero within them, each once and in order. -/
theorem bracketRoots_sampled (hF : ∀ x, HasDerivAt F (F' x) x)
    (hs : ∀ x y, [x, y] <:+: k :: ks → Finds solve F x y) (hk : (k :: ks).Pairwise (· < ·))
    (hc : HoldsCritical F' k ks) (hlast : ∀ l, last = some l → l < k) :
    ∃ rs : List ℝ,
      bracketRoots solve (last.map value) (sampled F (k :: ks)) = rs.map value ∧
      rs.Pairwise (· < ·) ∧ ∀ x, x ∈ rs ↔ F x = 0 ∧ Within k ks x := by
  induction ks generalizing k last with
  | nil =>
    refine ⟨[], rfl, .nil, fun x => ⟨nofun, ?_⟩⟩
    rintro ⟨-, -, m, hm, -⟩
    cases hm
  | cons m ks ih =>
    obtain ⟨hfirst, hm⟩ := List.pairwise_cons.1 hk
    have hkm := hfirst m List.mem_cons_self
    have hstretch := hc.isStretch hF hk
    have hfound : Finds solve F k m := hs k m ⟨[], ks, rfl⟩
    have hs' : ∀ x y, [x, y] <:+: m :: ks → Finds solve F x y :=
      fun x y h => hs x y (List.infix_cons h)
    rcases bracketRoots_stretch hstretch hfound hlast with ⟨r, hr, hkr, hrm, hwalk⟩ | ⟨hnone, hwalk⟩
    · have hlast' : ∀ l, some r = some l → l < m := by
        rintro l ⟨⟩
        exact hrm
      obtain ⟨rs, hrs, hpair, hmem⟩ := ih hs' hm (hc.of_cons hkm) hlast'
      refine ⟨r :: rs, ?_, ?_, ?_⟩
      · rw [hwalk, hrs, List.map_cons]
      · refine List.pairwise_cons.2 ⟨fun x hx => ?_, hpair⟩
        exact hrm.trans_le ((hmem x).1 hx).2.1
      · intro x
        rw [List.mem_cons, hmem, within_cons hkm]
        constructor
        · rintro (rfl | ⟨hx, hrest⟩)
          · exact ⟨hr, .inl ⟨hkr, hrm⟩⟩
          · exact ⟨hx, .inr hrest⟩
        · rintro ⟨hx, hin | hrest⟩
          · exact .inl (hstretch.eq_of_zero hin ⟨hkr, hrm⟩ hx hr)
          · exact .inr ⟨hx, hrest⟩
    · have hlast' : ∀ l, last = some l → l < m := fun l hl => (hlast l hl).trans hkm
      obtain ⟨rs, hrs, hpair, hmem⟩ := ih hs' hm (hc.of_cons hkm) hlast'
      refine ⟨rs, hwalk.trans hrs, hpair, ?_⟩
      intro x
      rw [hmem, within_cons hkm]
      constructor
      · rintro ⟨hx, hrest⟩
        exact ⟨hx, .inr hrest⟩
      · rintro ⟨hx, hin | hrest⟩
        · exact absurd hx (hnone x hin.1 hin.2)
        · exact ⟨hx, hrest⟩

end Curves.Polynomial
