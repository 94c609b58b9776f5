import Curves.Proofs.Double.Rank
import Curves.Proofs.Double.Rounding

namespace Curves.Double

open Float.Model Float.Model.UnpackedFloat

section Packing

variable {s : Sign} {u : UnpackedFloat}

theorem finite_congr {m n : Nat} {e f : ℤ} {h : 0 < m} {h' : 0 < n} (hm : m = n) (he : e = f) :
    UnpackedFloat.finite s m e h = .finite s n f h' := by
  subst hm he
  rfl

section Formats

variable {spec : Format} {e : BitVec spec.exponentBits}
  {m : BitVec spec.mantissaBitsWithoutImplicit}

theorem unpack_packedInfinity :
    UnpackedFloat.unpack spec (packedInfinity spec s) = .infinity s := by
  simp [UnpackedFloat.unpack, packedInfinity]

theorem unpack_normal (hfirst : e ≠ 0#_) (hlast : e ≠ -1#_) :
    UnpackedFloat.unpack spec (packComponents spec s e m) = .finite s (1#1 ++ m).toNat
      (e.toNat - (spec.exponentBias + spec.mantissaBitsWithoutImplicit)) (by simp) := by
  simp [UnpackedFloat.unpack, hfirst, hlast]

theorem unpack_subnormal (h : m ≠ 0#_) :
    UnpackedFloat.unpack spec (packComponents spec s 0#_ m) = .finite s m.toNat
      (-(spec.exponentBias + spec.mantissaBitsWithoutImplicit) + 1)
      (by simpa [BitVec.toNat_pos, BitVec.pos_iff_ne_zero]) := by
  simp [UnpackedFloat.unpack, h, spec.he.ne']

end Formats

variable {m : Nat} (h : 0 < m)

theorem unpack_full {e : ℤ} (hm : m < 2 ^ 53) (hfull : 2 ^ 52 ≤ m) (he : -1074 ≤ e)
    (hmax : e < 972) : UnpackedFloat.unpack Format.binary64 (packComponents Format.binary64 s
      (BitVec.ofNat 11 (e + 1075).toNat) (BitVec.ofNat 52 m)) = .finite s m e h := by
  have hexp : (BitVec.ofNat 11 (e + 1075).toNat).toNat = (e + 1075).toNat := by
    rw [BitVec.toNat_ofNat]
    omega
  have hfirst : BitVec.ofNat 11 (e + 1075).toNat ≠ 0#11 := by
    rw [← BitVec.toNat_inj.ne, hexp, BitVec.toNat_zero]
    omega
  have hlast : BitVec.ofNat 11 (e + 1075).toNat ≠ -1#11 := by
    have htop : (-1#11).toNat = 2047 := rfl
    rw [← BitVec.toNat_inj.ne, hexp, htop]
    omega
  refine (unpack_normal hfirst hlast).trans (finite_congr ?_ ?_)
  · change (1#1 ++ BitVec.ofNat 52 m).toNat = m
    rw [toNat_implicit_append, BitVec.toNat_ofNat]
    omega
  · change _ - (1075 : ℤ) = e
    rw [hexp]
    omega

theorem unpack_small (hm : m < 2 ^ 52) :
    UnpackedFloat.unpack Format.binary64 (packComponents Format.binary64 s 0#11
      (BitVec.ofNat 52 m)) = .finite s m (-1074) h := by
  have hm' : (BitVec.ofNat 52 m).toNat = m := by
    rw [BitVec.toNat_ofNat, Nat.mod_eq_of_lt hm]
  have hne : BitVec.ofNat 52 m ≠ 0#52 := by
    rw [← BitVec.toNat_inj.ne, hm']
    exact h.ne'
  exact (unpack_subnormal hne).trans (finite_congr hm' rfl)

/-- A rounded double is kept as it is, unless its exponent is too great. -/
theorem unpack_pack (hu : IsNormal s u) :
    UnpackedFloat.unpack Format.binary64 (UnpackedFloat.pack Format.binary64 u) = u ∨
      UnpackedFloat.unpack Format.binary64 (UnpackedFloat.pack Format.binary64 u) =
        .infinity s := by
  cases hu with
  | zero => exact .inl unpack_packedZero
  | @finite m e h hm he hfull =>
    have hbias : e + (Format.binary64.exponentBias : ℕ) +
        (Format.binary64.mantissaBitsWithoutImplicit : ℕ) = e + 1075 := add_assoc e 1023 52
    have hbits : (2 : ℕ) ^ Format.binary64.exponentBits = 2048 := rfl
    rw [UnpackedFloat.pack, hbias, hbits]
    dsimp only
    split_ifs with hlarge hnormal
    · exact .inr unpack_packedInfinity
    · have hlog : m.log2 = 52 := Nat.succ_injective hnormal
      have hge : 2 ^ 52 ≤ m := hlog ▸ Nat.log2_self_le h.ne'
      exact .inl (unpack_full h hm hge he (by omega))
    · have hlog : m.log2 ≠ 52 := fun h => hnormal (congrArg (· + 1) h)
      have hlt : m.log2 < 53 := (Nat.log2_lt h.ne').2 hm
      have hsmall : m < 2 ^ 52 := (Nat.log2_lt h.ne').1 (by omega)
      obtain rfl : e = -1074 := hfull.resolve_left hsmall.not_ge
      exact .inl (unpack_small h hsmall)

def packed (u : UnpackedFloat) : Float :=
  .ofModel (.pack u)

theorem unpack_packed (hu : IsNormal s u) (h : (packed u).isFinite) :
    (packed u).toModel.unpack = u := by
  rcases unpack_pack hu with heq | hinf
  · exact heq
  · have hfalse : (packed u).isFinite = UnpackedFloat.isFinite (.infinity s) :=
      congrArg UnpackedFloat.isFinite hinf
    exact absurd (hfalse.symm.trans h) Bool.false_ne_true

theorem packed_unpack (x : Float) : packed x.toModel.unpack = x :=
  Float.toBits_inj.1 (UInt64.toBitVec_inj.1 (pack_unpack_of_valid x.toModel.valid))

theorem not_isFinite_packed_infinity (s : Sign) : (packed (.infinity s)).isFinite = false := by
  cases s <;> decide

theorem not_isFinite_packed_notANumber : (packed .notANumber).isFinite = false := by
  decide

end Packing

section Numbers

def scaled (n : Nat) : ℚ :=
  mantissa n * 2 ^ exponent n

theorem scaled_zero : scaled 0 = 0 :=
  zero_mul _

theorem scaled_nonneg (n : Nat) : 0 ≤ scaled n :=
  mul_nonneg (Nat.cast_nonneg _) (two_zpow_pos _).le

theorem scaled_pos {n : Nat} (h : 0 < n) : 0 < scaled n :=
  mul_pos (Nat.cast_pos.2 (mantissa_pos h)) (two_zpow_pos _)

theorem scaled_lt {m n : Nat} (h : m < n) : scaled m < scaled n := by
  rcases eq_or_ne (exponent m) (exponent n) with he | he
  · have hm : mantissa m < mantissa n := by
      rw [exponent, exponent] at he
      rw [mantissa, mantissa]
      split <;> split <;> omega
    rw [scaled, scaled, he]
    exact mul_lt_mul_of_pos_right (Nat.cast_lt.2 hm) (two_zpow_pos _)
  · have hstep : exponent m + 1 ≤ exponent n := by
      rw [exponent, exponent] at *
      omega
    have hm : (mantissa m : ℚ) < 2 ^ 53 := by exact_mod_cast mantissa_lt m
    have hn : (2 ^ 52 : ℚ) ≤ mantissa n := by
      have := neg_1074_le_exponent m
      exact_mod_cast (le_mantissa_or n).resolve_right (by omega)
    calc scaled m < 2 ^ 53 * 2 ^ exponent m := mul_lt_mul_of_pos_right hm (two_zpow_pos _)
      _ = 2 ^ 52 * 2 ^ (exponent m + 1) := by
        rw [zpow_add_one₀ two_ne_zero]
        ring
      _ ≤ scaled n := by
        rw [scaled]
        gcongr
        norm_num

theorem Decodes.isNormal {s : Sign} {n : Nat} {u : UnpackedFloat} (h : Decodes s n u)
    (hn : n < infinityBits) : IsNormal s u := by
  cases h with
  | zero => exact .zero
  | finite hpos _ =>
    exact .finite _ (mantissa_lt n) (neg_1074_le_exponent n) (le_mantissa_or n)
  | infinity => exact absurd hn (lt_irrefl _)
  | notANumber h => exact absurd hn h.not_gt

theorem Decodes.number_eq {s : Sign} {n : Nat} {u : UnpackedFloat} (h : Decodes s n u)
    (hn : n < infinityBits) : number u = signed s (scaled n) := by
  cases h with
  | zero => exact (congrArg (signed s) scaled_zero).trans (signed_zero s) |>.symm
  | finite => rfl
  | infinity => exact absurd hn (lt_irrefl _)
  | notANumber h => exact absurd hn h.not_gt

/-- The number that a finite double stands for. -/
def toRat (x : Float) : ℚ :=
  number x.toModel.unpack

variable {x y : Float}

theorem isNormal (hx : x.isFinite) : IsNormal (sign x) x.toModel.unpack :=
  (decodes x).isNormal (isFinite_iff.1 hx)

theorem toRat_lt (hx : x.isFinite) (hy : y.isFinite) (h : rank x < rank y) :
    toRat x < toRat y := by
  rw [toRat, toRat, (decodes x).number_eq (isFinite_iff.1 hx),
    (decodes y).number_eq (isFinite_iff.1 hy)]
  rw [rank, rank] at h
  generalize sign x = s at *
  generalize sign y = t at *
  cases s with
  | positive =>
    cases t with
    | positive => exact scaled_lt (Int.ofNat_lt.1 h)
    | negative =>
      simp only [Sign.apply] at h
      omega
  | negative =>
    cases t with
    | positive =>
      rcases (size x).eq_zero_or_pos with hzero | hpos
      · have hpos : 0 < size y := by
          simp only [Sign.apply] at h
          omega
        rw [hzero, scaled_zero, signed_zero]
        exact scaled_pos hpos
      · exact (neg_lt_zero.2 (scaled_pos hpos)).trans_le (scaled_nonneg _)
    | negative => exact neg_lt_neg (scaled_lt (Int.ofNat_lt.1 (neg_lt_neg_iff.1 h)))

theorem rank_le_of_toRat_le (hx : x.isFinite) (hy : y.isFinite) (h : toRat x ≤ toRat y) :
    rank x ≤ rank y :=
  not_lt.1 fun hlt => (toRat_lt hy hx hlt).not_ge h

theorem toRat_of_size_eq_zero (h : size x = 0) : toRat x = 0 := by
  rw [toRat, (decodes x).number_eq (h.trans_lt (by decide)), h, scaled_zero, signed_zero]

theorem toRat_nonneg (hx : x.isFinite) (h : sign x = .positive) : 0 ≤ toRat x := by
  rw [toRat, (decodes x).number_eq (isFinite_iff.1 hx), h]
  exact scaled_nonneg _

theorem toRat_nonpos (hx : x.isFinite) (h : sign x = .negative) : toRat x ≤ 0 := by
  rw [toRat, (decodes x).number_eq (isFinite_iff.1 hx), h]
  exact neg_nonpos.2 (scaled_nonneg _)

theorem IsNormal.fits {s : Sign} {u : UnpackedFloat} (h : IsNormal s u) : Fits (number u) := by
  cases h with
  | zero => exact ⟨0, 0, by norm_num, by norm_num, by norm_num [number]⟩
  | @finite m e h hm he hfull =>
    have hfits : Fits (m * 2 ^ e) := by
      refine ⟨m, e, ?_, he, ?_⟩
      · rw [Nat.abs_cast]
        exact_mod_cast hm.le
      · rw [Int.cast_natCast]
    cases s with
    | positive => exact hfits
    | negative => exact hfits.neg

theorem IsNormal.sign_eq {s : Sign} (h : IsNormal s x.toModel.unpack) : sign x = s := by
  have hdecodes := decodes x
  generalize x.toModel.unpack = u at *
  generalize size x = n at *
  cases h with
  | zero =>
    cases hdecodes
    rfl
  | finite =>
    cases hdecodes
    rfl

theorem Fits.double {r : ℚ} (h : Fits r) : Fits (2 * r) := by
  obtain ⟨k, e, hk, he, rfl⟩ := h
  refine ⟨k, e + 1, hk, by omega, ?_⟩
  rw [zpow_add_one₀ two_ne_zero]
  ring

end Numbers

section Operations

variable {x y : Float}

theorem isFinite_of_div (h : (x / y).isFinite) : x.isFinite := by
  have hdiv : x / y = packed (.div Format.binary64 x.toModel.unpack y.toModel.unpack) := rfl
  rw [hdiv] at h
  change x.toModel.unpack.isFinite = true
  generalize x.toModel.unpack = u at *
  generalize y.toModel.unpack = v at *
  cases u with
  | zero => rfl
  | finite => rfl
  | infinity s =>
    cases v with
    | zero => exact absurd h (ne_true_of_eq_false (not_isFinite_packed_infinity _))
    | finite => exact absurd h (ne_true_of_eq_false (not_isFinite_packed_infinity _))
    | infinity => exact absurd h (ne_true_of_eq_false not_isFinite_packed_notANumber)
    | notANumber => exact absurd h (ne_true_of_eq_false not_isFinite_packed_notANumber)
  | notANumber => exact absurd h (ne_true_of_eq_false not_isFinite_packed_notANumber)

theorem unpack_two :
    (2 : Float).toModel.unpack = .finite .positive (2 ^ 52) (-51) (Nat.two_pow_pos 52) :=
  rfl

theorem rounds_sum (hx : x.isFinite) (hy : y.isFinite) (h : (x + y).isFinite) :
    Rounds (x + y).toModel.unpack (toRat x + toRat y) := by
  obtain ⟨⟨s, hs⟩, hrounds⟩ := rounds_add (isNormal hx) (isNormal hy)
  have hsum := unpack_packed hs h
  change Rounds (packed _).toModel.unpack _
  rw [hsum]
  exact hrounds

theorem rounds_half (hx : x.isFinite) (h : (x / 2).isFinite) :
    Rounds (x / 2).toModel.unpack (toRat x / 2) ∧ sign (x / 2) = sign x := by
  have htwo : signed .positive ((2 ^ 52 : ℕ) * 2 ^ (-51 : ℤ)) = 2 := by
    rw [signed]
    norm_num
  obtain ⟨hnormal, hrounds⟩ := rounds_div (t := .positive) (e := -51) (Nat.two_pow_pos 52)
    (isNormal hx)
  rw [← unpack_two] at hnormal hrounds
  rw [htwo] at hrounds
  have hhalf : (x / 2).toModel.unpack =
      UnpackedFloat.div Format.binary64 x.toModel.unpack (2 : Float).toModel.unpack :=
    unpack_packed hnormal h
  rw [← hhalf] at hnormal hrounds
  refine ⟨hrounds, ?_⟩
  rw [hnormal.sign_eq]
  cases sign x <;> rfl

/-- The middle of two doubles, rounded twice, is still between them. -/
theorem middle_between (hx : x.isFinite) (hy : y.isFinite) (hlt : x < y)
    (h : ((x + y) / 2).isFinite) : totalLE x ((x + y) / 2) ∧ totalLE ((x + y) / 2) y := by
  have hfinite := isFinite_of_div h
  have hnumbers : toRat x < toRat y := toRat_lt hx hy
    ((lt_iff_rank (not_isNaN_of_isFinite hx) (not_isNaN_of_isFinite hy)).1 hlt)
  have hsum := rounds_sum hx hy hfinite
  obtain ⟨hhalf, hsign⟩ := rounds_half hfinite h
  have hfitsx : Fits (toRat x) := (isNormal hx).fits
  have hfitsy : Fits (toRat y) := (isNormal hy).fits
  have hlow : 2 * toRat x ≤ toRat (x + y) := (hsum _ hfitsx.double).1 (by linarith)
  have hhigh : toRat (x + y) ≤ 2 * toRat y := (hsum _ hfitsy.double).2 (by linarith)
  have hxm : toRat x ≤ toRat ((x + y) / 2) := (hhalf _ hfitsx).1 (by linarith)
  have hmy : toRat ((x + y) / 2) ≤ toRat y := (hhalf _ hfitsy).2 (by linarith)
  -- the total order tells the zeros apart, so where an end is zero the sign of the middle matters
  constructor
  · apply totalLE_of_rank_le (rank_le_of_toRat_le hx h hxm)
    rintro ⟨⟨-, hzero⟩, hneg, -⟩
    have hx0 := toRat_of_size_eq_zero hzero
    have hle : toRat y ≤ toRat (x + y) := (hsum _ hfitsy).1 (by linarith)
    linarith [toRat_nonpos hfinite (hsign.symm.trans hneg)]
  · apply totalLE_of_rank_le (rank_le_of_toRat_le h hy hmy)
    rintro ⟨⟨hpos, -⟩, -, hzero⟩
    have hy0 := toRat_of_size_eq_zero hzero
    have hle : toRat (x + y) ≤ toRat x := (hsum _ hfitsx).2 (by linarith)
    linarith [toRat_nonneg hfinite (hsign.symm.trans hpos)]

end Operations

section Anchors

variable {x a t c : Float} {s : Sign}

theorem sub_self_eq_zero {u : UnpackedFloat} (h : IsNormal s u) :
    UnpackedFloat.sub Format.binary64 u u = .zero .positive := by
  cases h with
  | zero => cases s <;> rfl
  | finite =>
    rw [UnpackedFloat.sub]
    dsimp only
    rw [sub_self]
    rfl

theorem unpack_sub_self (hx : x.isFinite) : (x - x).toModel.unpack = .zero .positive := by
  change (packed (.sub Format.binary64 x.toModel.unpack x.toModel.unpack)).toModel.unpack = _
  rw [sub_self_eq_zero (isNormal hx)]
  rfl

theorem add_zero_left (s : Sign) (u : UnpackedFloat) :
    UnpackedFloat.add Format.binary64 (.zero s) u = u ∨
      ∃ q r, u = .zero q ∧ UnpackedFloat.add Format.binary64 (.zero s) u = .zero r := by
  cases u with
  | zero q => cases s <;> cases q <;> exact .inr ⟨_, _, rfl, rfl⟩
  | finite => exact .inl rfl
  | infinity => exact .inl rfl
  | notANumber => exact .inl rfl

theorem exactProduct_zero {u : UnpackedFloat} (h : u.isFinite) (s : Sign) :
    ∃ r, exactProduct u (.zero s) = .zero r := by
  cases u with
  | zero => exact ⟨_, rfl⟩
  | finite => exact ⟨_, rfl⟩
  | infinity => exact absurd h Bool.false_ne_true
  | notANumber => exact absurd h Bool.false_ne_true

theorem mulAdd_zero (ha : a.isFinite) (ht : t.toModel.unpack = .zero s) :
    mulAdd a t c = c ∨ ∃ q r, c.toModel.unpack = .zero q ∧
      (mulAdd a t c).toModel.unpack = .zero r := by
  obtain ⟨p, hp⟩ := exactProduct_zero ha s
  have hsum : mulAdd a t c = packed (.add Format.binary64 (.zero p) c.toModel.unpack) := by
    rw [mulAdd, ht, hp]
    rfl
  rw [hsum]
  rcases add_zero_left p c.toModel.unpack with heq | ⟨q, r, hq, hr⟩
  · rw [heq]
    exact .inl (packed_unpack c)
  · rw [hr]
    exact .inr ⟨q, r, hq, unpack_packedZero⟩

theorem mulAdd_zero_beq (ha : a.isFinite) (ht : t.toModel.unpack = .zero s) (hc : c.isFinite) :
    mulAdd a t c == c := by
  rcases mulAdd_zero (c := c) ha ht with heq | ⟨q, r, hq, hr⟩
  · have hnan := not_isNaN_of_isFinite hc
    rw [heq, beq_iff_rank hnan hnan]
  · have hbeq : (mulAdd a t c == c) =
        ((mulAdd a t c).toModel.unpack.compare c.toModel.unpack == some .eq) := rfl
    rw [hbeq, hq, hr]
    rfl

theorem isFinite_mulAdd_zero (ht : t.toModel.unpack = .zero s) :
    (mulAdd a t c).isFinite ↔ a.isFinite ∧ c.isFinite := by
  rcases Bool.eq_false_or_eq_true a.isFinite with ha | ha
  · rw [and_iff_right ha]
    rcases mulAdd_zero (c := c) ha ht with heq | ⟨q, r, hq, hr⟩
    · rw [heq]
    · exact iff_of_true (congrArg UnpackedFloat.isFinite hr) (congrArg UnpackedFloat.isFinite hq)
  · have hnan : mulAdd a t c = packed .notANumber := by
      have hfalse : a.toModel.unpack.isFinite = false := ha
      rw [mulAdd, ht]
      cases hau : a.toModel.unpack with
      | zero => exact absurd (hau ▸ hfalse) Bool.noConfusion
      | finite => exact absurd (hau ▸ hfalse) Bool.noConfusion
      | infinity => rfl
      | notANumber => rfl
    rw [hnan, not_isFinite_packed_notANumber]
    exact iff_of_false Bool.false_ne_true fun h => absurd h.1 (ne_true_of_eq_false ha)

theorem isFinite_of_beq (h : x == c) (hc : c.isFinite) : x.isFinite := by
  rcases Float.beq_iff_ne_nan_and_eq.1 h with ⟨-, -, rfl | ⟨rfl, -⟩ | ⟨rfl, -⟩⟩
  · exact hc
  · decide
  · decide

end Anchors

end Curves.Double
