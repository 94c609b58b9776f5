import Mathlib

namespace Curves.Double

open Float.Model Float.Model.UnpackedFloat

def signed : Sign → ℚ → ℚ
  | .positive, v => v
  | .negative, v => -v

/-- The number that an unpacked double stands for, zero if it stands for none. -/
def number : UnpackedFloat → ℚ
  | .finite s m e _ => signed s (m * 2 ^ e)
  | _ => 0

/-- A number that takes at most 53 bits, above the least power of two or at it. -/
def Fits (r : ℚ) : Prop :=
  ∃ k e : ℤ, |k| ≤ 2 ^ 53 ∧ -1074 ≤ e ∧ r = k * 2 ^ e

/-- No number that fits lies strictly between a number and what it is rounded to. -/
def Rounds (u : UnpackedFloat) (v : ℚ) : Prop :=
  ∀ r, Fits r → (r ≤ v → r ≤ number u) ∧ (v ≤ r → number u ≤ r)

/-- Zero or a finite double with that sign, its mantissa full unless the exponent is the least one.
The exponent may be too great. -/
inductive IsNormal (s : Sign) : UnpackedFloat → Prop
  | zero : IsNormal s (.zero s)
  | finite {m : Nat} {e : Int} (h : 0 < m) (hm : m < 2 ^ 53) (he : -1074 ≤ e)
      (hfull : 2 ^ 52 ≤ m ∨ e = -1074) : IsNormal s (.finite s m e h)

theorem number_zero (s : Sign) : number (.zero s) = 0 :=
  rfl

theorem signed_zero (s : Sign) : signed s 0 = 0 := by
  cases s
  · exact neg_zero
  · rfl

theorem two_zpow_pos (e : ℤ) : (0 : ℚ) < 2 ^ e :=
  zpow_pos two_pos e

theorem Fits.neg {r : ℚ} (h : Fits r) : Fits (-r) := by
  obtain ⟨k, e, hk, he, rfl⟩ := h
  refine ⟨-k, e, (abs_neg k).trans_le hk, he, ?_⟩
  push_cast
  ring

/-- What is left of a number without its bits below an exponent, and whether any of these was
set. -/
structure Truncates (em : ExtendedMantissa) (t : ℤ) (v : ℚ) : Prop where
  le : em.mantissa * 2 ^ t ≤ v
  lt : v < (em.mantissa + 1) * 2 ^ t
  lt_of_rest : em.roundBit ∨ em.stickyBit → em.mantissa * 2 ^ t < v

section Truncation

variable {em : ExtendedMantissa} {t : ℤ} {v r : ℚ}

theorem Truncates.shiftRightOne (h : Truncates em t v) :
    Truncates em.shiftRightOne (t + 1) v := by
  have hpos := two_zpow_pos t
  have hsplit : (em.mantissa : ℚ) = 2 * (em.mantissa / 2 : ℕ) + (em.mantissa % 2 : ℕ) := by
    exact_mod_cast (Nat.div_add_mod em.mantissa 2).symm
  have hrest : ((em.mantissa % 2 : ℕ) : ℚ) ≤ 1 := by
    exact_mod_cast Nat.le_of_lt_succ (Nat.mod_lt _ two_pos)
  have hle : ((em.mantissa / 2 : ℕ) : ℚ) * (2 ^ t * 2) ≤ em.mantissa * 2 ^ t := by
    rw [hsplit]
    linarith [mul_nonneg (Nat.cast_nonneg (α := ℚ) (em.mantissa % 2)) hpos.le]
  refine ⟨?_, ?_, ?_⟩
  · rw [zpow_add_one₀ two_ne_zero]
    exact hle.trans h.le
  · have hlt := h.lt
    rw [hsplit] at hlt
    rw [zpow_add_one₀ two_ne_zero]
    change v < ((em.mantissa / 2 : ℕ) + 1) * (2 ^ t * 2)
    linarith [mul_le_mul_of_nonneg_right hrest hpos.le]
  · intro hbits
    rw [zpow_add_one₀ two_ne_zero]
    change ((em.mantissa / 2 : ℕ) : ℚ) * (2 ^ t * 2) < v
    rcases hbits with hbit | hbits
    · have hodd : em.mantissa % 2 = 1 := by
        have hne : em.mantissa % 2 ≠ 0 := bne_iff_ne.1 hbit
        omega
      have hm := h.le
      rw [hsplit, hodd, Nat.cast_one] at hm
      linarith
    · exact hle.trans_lt (h.lt_of_rest (Bool.or_eq_true_iff.1 hbits))

theorem Truncates.shiftRight (h : Truncates em t v) (n : Nat) :
    Truncates (em >>> n) (t + n) v := by
  induction n with
  | zero =>
    rw [Nat.cast_zero, add_zero]
    exact h
  | succ n ih =>
    rw [Nat.cast_succ, ← add_assoc]
    exact ih.shiftRightOne

theorem mantissa_shiftRight (em : ExtendedMantissa) (n : Nat) :
    (em >>> n).mantissa = em.mantissa / 2 ^ n := by
  induction n with
  | zero => exact (Nat.div_one _).symm
  | succ n ih =>
    rw [pow_succ, ← Nat.div_div_eq_div_mul, ← ih]
    rfl

theorem le_roundedMantissa (em : ExtendedMantissa) : em.mantissa ≤ em.roundedMantissa := by
  obtain ⟨m, round, sticky⟩ := em
  cases round <;> cases sticky
  · exact le_rfl
  · exact le_rfl
  · exact Nat.le_add_right m _
  · exact Nat.le_add_right m 1

theorem roundedMantissa_le (em : ExtendedMantissa) : em.roundedMantissa ≤ em.mantissa + 1 := by
  obtain ⟨m, round, sticky⟩ := em
  cases round <;> cases sticky
  · exact Nat.le_add_right m 1
  · exact Nat.le_add_right m 1
  · exact Nat.add_le_add_left (Nat.le_of_lt_succ (Nat.mod_lt m two_pos)) m
  · exact le_rfl

theorem rest_of_lt_roundedMantissa (h : em.mantissa < em.roundedMantissa) :
    em.roundBit ∨ em.stickyBit := by
  obtain ⟨m, round, sticky⟩ := em
  cases round <;> cases sticky
  · exact absurd h (lt_irrefl m)
  · exact .inr rfl
  · exact .inl rfl
  · exact .inl rfl

/-- A number that fits is a multiple of the last place, or below the least full mantissa. -/
theorem Fits.eq_mul_or (h : Fits r) (t : ℤ) :
    (∃ j : ℤ, r = j * 2 ^ t) ∨ -1074 < t ∧ r ≤ 2 ^ 52 * 2 ^ t := by
  obtain ⟨k, e, hk, he, rfl⟩ := h
  rcases le_or_gt t e with hte | hte
  · refine .inl ⟨k * 2 ^ (e - t).toNat, ?_⟩
    rw [Int.cast_mul, Int.cast_pow, Int.cast_ofNat, ← zpow_natCast, Int.toNat_of_nonneg (by omega),
      mul_assoc, ← zpow_add₀ two_ne_zero, sub_add_cancel]
  · refine .inr ⟨he.trans_lt hte, ?_⟩
    have hbound : (k : ℚ) ≤ 2 ^ 53 := by exact_mod_cast (le_abs_self k).trans hk
    calc (k : ℚ) * 2 ^ e ≤ 2 ^ 53 * 2 ^ (t - 1) := by
          gcongr
          · norm_num
          · omega
      _ = 2 ^ 52 * 2 ^ t := by
          rw [zpow_sub_one₀ two_ne_zero]
          ring

theorem Truncates.le_rounded (h : Truncates em t v) (hfull : 2 ^ 52 ≤ em.mantissa ∨ t = -1074)
    (hr : Fits r) (hv : r ≤ v) : r ≤ em.roundedMantissa * 2 ^ t := by
  have hpos := two_zpow_pos t
  have hle : (em.mantissa : ℚ) * 2 ^ t ≤ em.roundedMantissa * 2 ^ t := by
    gcongr
    exact le_roundedMantissa em
  rcases hr.eq_mul_or t with ⟨j, rfl⟩ | ⟨ht, hsmall⟩
  · have hj : j < em.mantissa + 1 := by
      exact_mod_cast lt_of_mul_lt_mul_right (hv.trans_lt h.lt) hpos.le
    have hjle : (j : ℚ) ≤ em.mantissa := by exact_mod_cast Int.le_of_lt_add_one hj
    exact (mul_le_mul_of_nonneg_right hjle hpos.le).trans hle
  · have hm : (2 ^ 52 : ℚ) ≤ em.mantissa := by
      exact_mod_cast hfull.resolve_right ht.ne'
    exact (hsmall.trans (mul_le_mul_of_nonneg_right hm hpos.le)).trans hle

theorem Truncates.rounded_le (h : Truncates em t v) (hfull : 2 ^ 52 ≤ em.mantissa ∨ t = -1074)
    (hr : Fits r) (hv : v ≤ r) : em.roundedMantissa * 2 ^ t ≤ r := by
  have hpos := two_zpow_pos t
  rcases (le_roundedMantissa em).eq_or_lt with heq | hlt
  · rw [← heq]
    exact h.le.trans hv
  have hstrict := h.lt_of_rest (rest_of_lt_roundedMantissa hlt)
  rcases hr.eq_mul_or t with ⟨j, rfl⟩ | ⟨ht, hsmall⟩
  · have hj : (em.mantissa : ℤ) < j := by
      exact_mod_cast lt_of_mul_lt_mul_right (hstrict.trans_le hv) hpos.le
    have hle : (em.roundedMantissa : ℚ) ≤ j := by
      have := roundedMantissa_le em
      exact_mod_cast (by omega : (em.roundedMantissa : ℤ) ≤ j)
    exact mul_le_mul_of_nonneg_right hle hpos.le
  · have hm : (2 ^ 52 : ℚ) ≤ em.mantissa := by
      exact_mod_cast hfull.resolve_right ht.ne'
    have hback := mul_le_mul_of_nonneg_right hm hpos.le
    exact absurd (hstrict.trans_le (hv.trans (hsmall.trans hback))) (lt_irrefl _)

end Truncation

section Target

theorem targetExponent_eq (t : ℤ) : Format.binary64.targetExponent t = max (t - 53) (-1074) :=
  rfl

theorem mantissa_at_target {m : Nat} {e : ℤ}
    (he : e ≤ Format.binary64.targetExponent (totalExponent m e)) :
    m / 2 ^ (Format.binary64.targetExponent (totalExponent m e) - e).toNat < 2 ^ 53 ∧
      (2 ^ 52 ≤ m / 2 ^ (Format.binary64.targetExponent (totalExponent m e) - e).toNat ∨
        Format.binary64.targetExponent (totalExponent m e) = -1074) := by
  rw [targetExponent_eq, totalExponent] at *
  have hlt : m < 2 ^ (m.log2 + 1) := Nat.lt_log2_self
  generalize hn : (max ((m.log2 : ℤ) + 1 + e - 53) (-1074) - e).toNat = n
  constructor
  · rw [Nat.div_lt_iff_lt_mul (Nat.two_pow_pos n), ← pow_add]
    exact hlt.trans_le (Nat.pow_le_pow_right two_pos (by omega))
  · rcases eq_or_ne (max ((m.log2 : ℤ) + 1 + e - 53) (-1074)) (-1074) with h | h
    · exact .inr h
    · left
      have hm : m ≠ 0 := by
        rintro rfl
        rw [Nat.log2_zero] at h he
        omega
      rw [Nat.le_div_iff_mul_le (Nat.two_pow_pos n), ← pow_add]
      exact (Nat.pow_le_pow_right two_pos (by omega)).trans (Nat.log2_self_le hm)

theorem shiftToTargetExponent_of_lt {m : Nat} {e : ℤ} (hm : m < 2 ^ 53) (he : -1074 ≤ e) :
    shiftToTargetExponent Format.binary64 m e .exact = (⟨m, false, false⟩, e) := by
  have hlog : m.log2 < 53 := by
    rcases Nat.eq_zero_or_pos m with rfl | hpos
    · exact Nat.succ_pos 52
    · exact (Nat.log2_lt hpos.ne').2 hm
  have hshift : (Format.binary64.targetExponent (totalExponent m e) - e).toNat = 0 := by
    rw [targetExponent_eq, totalExponent]
    omega
  rw [shiftToTargetExponent, shiftToExponent, hshift]
  exact congrArg _ (add_zero e)

/-- A mantissa that rounding has made too long by one bit is a power of two. -/
theorem shiftToTargetExponent_carry {e : ℤ} (he : -1074 ≤ e) :
    shiftToTargetExponent Format.binary64 (2 ^ 53) e .exact = (⟨2 ^ 52, false, false⟩, e + 1) := by
  have hshift : (Format.binary64.targetExponent (totalExponent (2 ^ 53) e) - e).toNat = 1 := by
    rw [targetExponent_eq, totalExponent, Nat.log2_two_pow]
    omega
  rw [shiftToTargetExponent, shiftToExponent, hshift]
  rfl

end Target

theorem isNormal_carried {m : Nat} {e : ℤ} (s : Sign) (hm : m ≤ 2 ^ 53) (he : -1074 ≤ e)
    (hfull : 2 ^ 52 ≤ m ∨ e = -1074) :
    let last := shiftToTargetExponent Format.binary64 m e .exact
    let u := if h : last.1.mantissa = 0 then .zero s
      else .finite s last.1.mantissa last.2 (Nat.pos_of_ne_zero h)
    IsNormal s u ∧ number u = signed s (m * 2 ^ e) := by
  dsimp only
  rcases hm.eq_or_lt with rfl | hlt
  · rw [shiftToTargetExponent_carry he, dif_neg (Nat.two_pow_pos 52).ne']
    refine ⟨.finite _ (Nat.pow_lt_pow_right one_lt_two (Nat.lt_succ_self 52)) (by omega)
      (.inl le_rfl), congrArg (signed s) ?_⟩
    rw [zpow_add_one₀ two_ne_zero]
    push_cast
    ring
  · rw [shiftToTargetExponent_of_lt hlt he]
    split
    · rename_i hzero
      obtain rfl : m = 0 := hzero
      refine ⟨.zero, ?_⟩
      rw [Nat.cast_zero, zero_mul, signed_zero]
      rfl
    · exact ⟨.finite _ hlt he hfull, rfl⟩

/-- The mantissa that is left after the first shift, rounded, gives the value of the result. -/
theorem exists_truncates {m : Nat} {e : ℤ} {acc : Accuracy} {v : ℚ} (s : Sign)
    (hv : Truncates (.ofMantissaAndAccuracy m acc) e v)
    (he : e ≤ Format.binary64.targetExponent (totalExponent m e)) :
    ∃ em t, Truncates em t v ∧ (2 ^ 52 ≤ em.mantissa ∨ t = -1074) ∧
      IsNormal s (roundWithAccuracy Format.binary64 s m e acc) ∧
      number (roundWithAccuracy Format.binary64 s m e acc) =
        signed s (em.roundedMantissa * 2 ^ t) := by
  obtain ⟨hlt, hfull⟩ := mantissa_at_target he
  have hleast : -1074 ≤ Format.binary64.targetExponent (totalExponent m e) := le_max_right _ _
  have hshift : e + (Format.binary64.targetExponent (totalExponent m e) - e).toNat =
      Format.binary64.targetExponent (totalExponent m e) := by omega
  have hem := hv.shiftRight (Format.binary64.targetExponent (totalExponent m e) - e).toNat
  rw [hshift] at hem
  have hmantissa : (ExtendedMantissa.ofMantissaAndAccuracy m acc >>>
      (Format.binary64.targetExponent (totalExponent m e) - e).toNat).mantissa =
        m / 2 ^ (Format.binary64.targetExponent (totalExponent m e) - e).toNat := by
    rw [mantissa_shiftRight]
    rcases acc with _ | (_ | _ | _) <;> rfl
  rw [← hmantissa] at hlt hfull
  refine ⟨_, _, hem, hfull, ?_⟩
  rw [roundWithAccuracy, shiftToTargetExponent, shiftToExponent, hshift]
  generalize ExtendedMantissa.ofMantissaAndAccuracy m acc >>>
    (Format.binary64.targetExponent (totalExponent m e) - e).toNat = em at *
  generalize Format.binary64.targetExponent (totalExponent m e) = t at *
  have hge := le_roundedMantissa em
  have hle := roundedMantissa_le em
  apply isNormal_carried s (hle.trans hlt) hleast
  exact hfull.imp_left hge.trans'

theorem rounds_number (u : UnpackedFloat) : Rounds u (number u) :=
  fun _ _ => ⟨id, id⟩

section Operations

variable {m : Nat} {e : ℤ} {acc : Accuracy} {v : ℚ}

theorem rounds_roundWithAccuracy (s : Sign) (hv : Truncates (.ofMantissaAndAccuracy m acc) e v)
    (he : e ≤ Format.binary64.targetExponent (totalExponent m e)) :
    IsNormal s (roundWithAccuracy Format.binary64 s m e acc) ∧
      Rounds (roundWithAccuracy Format.binary64 s m e acc) (signed s v) := by
  obtain ⟨em, t, hem, hfull, hnormal, hnumber⟩ := exists_truncates s hv he
  refine ⟨hnormal, ?_⟩
  intro r hr
  rw [hnumber]
  cases s with
  | positive => exact ⟨hem.le_rounded hfull hr, hem.rounded_le hfull hr⟩
  | negative =>
    constructor
    · exact fun h => le_neg_of_le_neg (hem.rounded_le hfull hr.neg (le_neg_of_le_neg h))
    · exact fun h => neg_le_of_neg_le (hem.le_rounded hfull hr.neg (neg_le_of_neg_le h))

theorem truncates_exact (m : Nat) (e : ℤ) :
    Truncates (.ofMantissaAndAccuracy m .exact) e (m * 2 ^ e) := by
  refine ⟨le_rfl, ?_, ?_⟩
  · exact mul_lt_mul_of_pos_right (lt_add_one _) (two_zpow_pos e)
  · rintro (h | h)
    · exact absurd h Bool.false_ne_true
    · exact absurd h Bool.false_ne_true

theorem shiftLeft_mul_zpow (m : Nat) (e : ℤ) (k : Nat) :
    ((m <<< k : Nat) : ℚ) * 2 ^ (e - k) = m * 2 ^ e := by
  rw [Nat.shiftLeft_eq, Nat.cast_mul, Nat.cast_pow, Nat.cast_ofNat, mul_assoc, ← zpow_natCast,
    ← zpow_add₀ two_ne_zero, add_sub_cancel]

theorem totalExponent_shiftLeft (hm : 0 < m) (e : ℤ) (k : Nat) :
    totalExponent (m <<< k) (e - k) = totalExponent m e := by
  have hpos := Nat.mul_pos hm (Nat.two_pow_pos k)
  have hlog : (m <<< k).log2 = m.log2 + k := by
    rw [Nat.shiftLeft_eq, Nat.log2_eq_iff hpos.ne', pow_add, Nat.add_right_comm, pow_add]
    exact ⟨Nat.mul_le_mul_right _ (Nat.log2_self_le hm.ne'),
      Nat.mul_lt_mul_of_pos_right Nat.lt_log2_self (Nat.two_pow_pos k)⟩
  rw [totalExponent, totalExponent, hlog]
  push_cast
  ring

theorem rounds_round (s : Sign) (hm : 0 < m) :
    IsNormal s (UnpackedFloat.round Format.binary64 s m e) ∧
      Rounds (UnpackedFloat.round Format.binary64 s m e) (signed s (m * 2 ^ e)) := by
  rw [UnpackedFloat.round, decreaseExponent]
  generalize hk : (e - Format.binary64.targetExponent (totalExponent m e)).toNat = k
  rw [← shiftLeft_mul_zpow m e k]
  apply rounds_roundWithAccuracy s (truncates_exact _ _)
  rw [totalExponent_shiftLeft hm]
  omega

theorem rounds_normalize (n e : ℤ) (s : Sign) :
    (∃ t, IsNormal t (UnpackedFloat.normalize Format.binary64 n e s)) ∧
      Rounds (UnpackedFloat.normalize Format.binary64 n e s) (n * 2 ^ e) := by
  rw [UnpackedFloat.normalize]
  rcases lt_trichotomy n 0 with h | rfl | h
  · have hcast : (((-n).toNat : ℕ) : ℚ) = -n := by
      exact_mod_cast Int.toNat_of_nonneg (neg_nonneg.2 h.le)
    obtain ⟨hnormal, hrounds⟩ := rounds_round (e := e) .negative (m := (-n).toNat) (by omega)
    rw [hcast, signed, neg_mul, neg_neg] at hrounds
    rw [compare_lt_iff_lt.2 h]
    exact ⟨⟨_, hnormal⟩, hrounds⟩
  · rw [compare_eq_iff_eq.2 rfl, Int.cast_zero, zero_mul]
    exact ⟨⟨s, .zero⟩, rounds_number (.zero s)⟩
  · have hcast : ((n.toNat : ℕ) : ℚ) = n := by
      exact_mod_cast Int.toNat_of_nonneg h.le
    obtain ⟨hnormal, hrounds⟩ := rounds_round (e := e) .positive (m := n.toNat) (by omega)
    rw [hcast, signed] at hrounds
    rw [compare_gt_iff_gt.2 h]
    exact ⟨⟨_, hnormal⟩, hrounds⟩

theorem signed_eq (s : Sign) (m : Nat) (e : ℤ) (k : Nat) :
    signed s (m * 2 ^ e) = (s.apply ((m <<< k : Nat) : ℤ) : ℤ) * 2 ^ (e - k) := by
  rw [← shiftLeft_mul_zpow m e k]
  cases s with
  | positive => rfl
  | negative =>
    rw [signed, Sign.apply, Int.cast_neg, neg_mul]
    rfl

/-- The sum of two finite doubles is their exact sum, rounded. -/
theorem rounds_add {s t : Sign} {a b : UnpackedFloat} (ha : IsNormal s a) (hb : IsNormal t b) :
    (∃ r, IsNormal r (UnpackedFloat.add Format.binary64 a b)) ∧
      Rounds (UnpackedFloat.add Format.binary64 a b) (number a + number b) := by
  cases ha with
  | zero =>
    cases hb with
    | zero =>
      have hsum : ∃ r, UnpackedFloat.add Format.binary64 (.zero s) (.zero t) = .zero r := by
        cases s <;> cases t <;> exact ⟨_, rfl⟩
      obtain ⟨r, hsum⟩ := hsum
      rw [hsum, number_zero, number_zero, add_zero]
      exact ⟨⟨r, .zero⟩, rounds_number (.zero r)⟩
    | finite h hm he hfull =>
      refine ⟨⟨t, .finite h hm he hfull⟩, ?_⟩
      rw [number_zero, zero_add]
      exact rounds_number _
  | finite h hm he hfull =>
    cases hb with
    | zero =>
      refine ⟨⟨s, .finite h hm he hfull⟩, ?_⟩
      rw [number_zero, add_zero]
      exact rounds_number _
    | @finite m₂ e₂ h' hm' he' hfull' =>
      rename_i m₁ e₁
      have hsum : number (.finite s m₁ e₁ h) + number (.finite t m₂ e₂ h') =
          ((s.apply ((m₁ <<< (e₁ - min e₁ e₂).toNat : Nat) : ℤ) +
            t.apply ((m₂ <<< (e₂ - min e₁ e₂).toNat : Nat) : ℤ) : ℤ) : ℚ) * 2 ^ min e₁ e₂ := by
        rw [number, number, signed_eq s m₁ e₁ (e₁ - min e₁ e₂).toNat,
          signed_eq t m₂ e₂ (e₂ - min e₁ e₂).toNat, Int.toNat_of_nonneg (by omega),
          Int.toNat_of_nonneg (by omega), sub_sub_cancel, sub_sub_cancel, Int.cast_add, add_mul]
      rw [hsum]
      exact rounds_normalize _ _ _

theorem mantissa_ofMantissaAndAccuracy (m : Nat) (acc : Accuracy) :
    (ExtendedMantissa.ofMantissaAndAccuracy m acc).mantissa = m := by
  rcases acc with _ | (_ | _ | _) <;> rfl

theorem ne_zero_of_rest {m num den : Nat}
    (h : (ExtendedMantissa.ofMantissaAndAccuracy m (accuracyOfFraction num den)).roundBit ∨
      (ExtendedMantissa.ofMantissaAndAccuracy m (accuracyOfFraction num den)).stickyBit) :
    num ≠ 0 := by
  rintro rfl
  exact h.elim Bool.false_ne_true Bool.false_ne_true

theorem truncates_div {m d : Nat} (hd : 0 < d) (e : ℤ) :
    Truncates (.ofMantissaAndAccuracy (m / d) (accuracyOfFraction (m % d) d)) e
      (m / d * 2 ^ e) := by
  have hpos := two_zpow_pos e
  have hd' : (0 : ℚ) < d := Nat.cast_pos.2 hd
  constructor
  · rw [mantissa_ofMantissaAndAccuracy]
    exact mul_le_mul_of_nonneg_right Nat.cast_div_le hpos.le
  · rw [mantissa_ofMantissaAndAccuracy]
    apply mul_lt_mul_of_pos_right _ hpos
    rw [div_lt_iff₀' hd']
    exact_mod_cast Nat.lt_mul_div_succ m hd
  · intro hrest
    rw [mantissa_ofMantissaAndAccuracy]
    apply mul_lt_mul_of_pos_right _ hpos
    rw [lt_div_iff₀' hd']
    have hmod := Nat.div_add_mod m d
    have hne := ne_zero_of_rest hrest
    exact_mod_cast (by omega : d * (m / d) < m)

theorem log2_le_of_div (m : Nat) {d : Nat} (hd : 0 < d) :
    m.log2 ≤ d.log2 + (m / d).log2 + 1 := by
  rcases Nat.eq_zero_or_pos m with rfl | hm
  · exact Nat.zero_le _
  have hlt : m < 2 ^ (d.log2 + 1) * 2 ^ ((m / d).log2 + 1) :=
    calc m < d * (m / d + 1) := Nat.lt_mul_div_succ m hd
      _ ≤ 2 ^ (d.log2 + 1) * 2 ^ ((m / d).log2 + 1) :=
        Nat.mul_le_mul Nat.lt_log2_self.le Nat.lt_log2_self
  rw [← pow_add] at hlt
  have := (Nat.log2_lt hm.ne').2 hlt
  omega

theorem truncates_divCore {m₁ m₂ : Nat} (e₁ e₂ : ℤ) (h₁ : 0 < m₁) (h₂ : 0 < m₂) :
    let q := divCore Format.binary64 m₁ e₁ m₂ e₂
    Truncates (.ofMantissaAndAccuracy q.1 q.2.2) q.2.1 (m₁ * 2 ^ e₁ / (m₂ * 2 ^ e₂)) ∧
      q.2.1 ≤ Format.binary64.targetExponent (totalExponent q.1 q.2.1) := by
  rw [divCore]
  dsimp only
  generalize ht : min (e₁ - e₂) (Format.binary64.targetExponent
    (totalExponent m₁ e₁ - totalExponent m₂ e₂)) = t
  generalize hk : (e₁ - e₂ - t).toNat = k
  have hshift : e₁ - e₂ - k = t := by omega
  constructor
  · have hquot : (m₁ * 2 ^ e₁ / (m₂ * 2 ^ e₂) : ℚ) = (m₁ <<< k : Nat) / m₂ * 2 ^ t := by
      rw [div_mul_eq_mul_div, ← hshift, shiftLeft_mul_zpow, zpow_sub₀ two_ne_zero, ← mul_div_assoc,
        div_div, mul_comm (m₂ : ℚ)]
    rw [hquot]
    exact truncates_div h₂ t
  · have hlog := log2_le_of_div (m₁ <<< k) h₂
    have htotal := totalExponent_shiftLeft h₁ (e₁ - e₂) k
    rw [totalExponent, totalExponent] at htotal
    rw [targetExponent_eq, totalExponent, totalExponent] at ht
    rw [targetExponent_eq, totalExponent]
    omega

theorem signed_div_signed (s t : Sign) (a b : ℚ) :
    signed s a / signed t b = signed (s / t) (a / b) := by
  cases s with
  | positive =>
    cases t with
    | positive => rfl
    | negative => exact div_neg a
  | negative =>
    cases t with
    | positive => exact neg_div b a
    | negative => exact neg_div_neg_eq a b

/-- The quotient of two finite doubles, the second of them not zero, is their exact quotient,
rounded. -/
theorem rounds_div {s t : Sign} {a : UnpackedFloat} {m : Nat} {e : ℤ} (h : 0 < m)
    (ha : IsNormal s a) :
    IsNormal (s / t) (UnpackedFloat.div Format.binary64 a (.finite t m e h)) ∧
      Rounds (UnpackedFloat.div Format.binary64 a (.finite t m e h))
        (number a / signed t (m * 2 ^ e)) := by
  cases ha with
  | zero =>
    rw [number_zero, zero_div]
    exact ⟨.zero, rounds_number (.zero (s / t))⟩
  | @finite m₁ e₁ h₁ _ _ _ =>
    obtain ⟨htruncates, hle⟩ := truncates_divCore e₁ e h₁ h
    rw [number, signed_div_signed]
    exact rounds_roundWithAccuracy (s / t) htruncates hle

end Operations

end Curves.Double
