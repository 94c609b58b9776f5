import Mathlib
import Curves.Proofs.Order

namespace Curves.Double

open Float.Model Float.Model.UnpackedFloat

def infinityBits : Nat := 2047 * 2 ^ 52

/-- The mantissa in the bits of a finite double, with the bit that is left out of them. -/
def mantissa (n : Nat) : Nat :=
  if n < 2 ^ 52 then n else 2 ^ 52 + n % 2 ^ 52

def exponent (n : Nat) : Int :=
  (max (n / 2 ^ 52) 1 : Nat) - 1075

theorem mantissa_pos {n : Nat} (h : 0 < n) : 0 < mantissa n := by
  rw [mantissa]
  split <;> omega

theorem mantissa_lt (n : Nat) : mantissa n < 2 ^ 53 := by
  rw [mantissa]
  split <;> omega

theorem neg_1074_le_exponent (n : Nat) : -1074 ≤ exponent n := by
  rw [exponent]
  omega

theorem le_mantissa_or (n : Nat) : 2 ^ 52 ≤ mantissa n ∨ exponent n = -1074 := by
  rw [mantissa, exponent]
  split <;> omega

/-- The sign, the other bits as a number, and what they stand for together. -/
inductive Decodes : Sign → Nat → UnpackedFloat → Prop
  | zero (s : Sign) : Decodes s 0 (.zero s)
  | finite (s : Sign) {n : Nat} (hpos : 0 < n) (hlt : n < infinityBits) :
      Decodes s n (.finite s (mantissa n) (exponent n) (mantissa_pos hpos))
  | infinity (s : Sign) : Decodes s infinityBits (.infinity s)
  | notANumber (s : Sign) {n : Nat} (h : infinityBits < n) : Decodes s n .notANumber

def sign (x : Float) : Sign :=
  if x.toBits.toNat < 2 ^ 63 then .positive else .negative

/-- The bits without the sign. -/
def size (x : Float) : Nat :=
  x.toBits.toNat % 2 ^ 63

section Fields

variable (b : BitVec 64)

theorem toNat_unpackMantissa :
    (@unpackMantissa Format.binary64 b).toNat = b.toNat % 2 ^ 52 := by
  rw [unpackMantissa_def, BitVec.extractLsb'_toNat, Nat.shiftRight_zero]

theorem toNat_unpackExponent :
    (@unpackExponent Format.binary64 b).toNat = b.toNat / 2 ^ 52 % 2 ^ 11 := by
  rw [unpackExponent_def, BitVec.extractLsb'_toNat, Nat.shiftRight_eq_div_pow]

theorem ofBitVec_unpackSign : Sign.ofBitVec (@unpackSign Format.binary64 b) =
    if b.toNat < 2 ^ 63 then .positive else .negative := by
  have hb := b.isLt
  have htop : (@unpackSign Format.binary64 b).toNat = b.toNat / 2 ^ 63 % 2 ^ 1 := by
    rw [unpackSign_def, BitVec.extractLsb'_toNat, Nat.shiftRight_eq_div_pow]
    rfl
  have hzero : @unpackSign Format.binary64 b = 0#1 ↔ b.toNat < 2 ^ 63 := by
    rw [← BitVec.toNat_inj, htop, BitVec.toNat_zero]
    omega
  simp only [Sign.ofBitVec, hzero]

theorem toNat_implicit_append (m : BitVec 52) : (1#1 ++ m).toNat = 2 ^ 52 + m.toNat := by
  rw [BitVec.toNat_append, Nat.or_comm, BitVec.toNat_ofNat]
  exact (Nat.or_two_pow_eq_add_of_lt m.isLt).trans (Nat.add_comm _ _)

end Fields

theorem Decodes.finite_of {s : Sign} {n m : Nat} {e : Int} (hpos : 0 < n) (hlt : n < infinityBits)
    (hm : m = mantissa n) (he : e = exponent n) (h : 0 < m) :
    Decodes s n (.finite s m e h) := by
  subst hm he
  exact .finite s hpos hlt

theorem decodes (x : Float) : Decodes (sign x) (size x) x.toModel.unpack := by
  have hunpack : x.toModel.unpack = UnpackedFloat.unpack Format.binary64 x.toBits.toBitVec := rfl
  rw [hunpack]
  let m : BitVec 52 := @unpackMantissa Format.binary64 x.toBits.toBitVec
  let e : BitVec 11 := @unpackExponent Format.binary64 x.toBits.toBitVec
  have hs : Sign.ofBitVec (@unpackSign Format.binary64 x.toBits.toBitVec) = sign x :=
    ofBitVec_unpackSign x.toBits.toBitVec
  have hn : size x = e.toNat * 2 ^ 52 + m.toNat := by
    rw [toNat_unpackMantissa, toNat_unpackExponent, size]
    change x.toBits.toBitVec.toNat % 2 ^ 63 = _
    omega
  have hm : m.toNat < 2 ^ 52 := m.isLt
  have he : e.toNat < 2 ^ 11 := e.isLt
  have htop : e = -1#_ ↔ e.toNat = 2047 := BitVec.toNat_inj.symm
  have hleast : e = 0#_ ↔ e.toNat = 0 := BitVec.toNat_inj.symm
  have hnone : m = 0#_ ↔ m.toNat = 0 := BitVec.toNat_inj.symm
  have hbias : ((Format.binary64.exponentBias : Int) + 52) = 1075 := rfl
  rw [UnpackedFloat.unpack, hs]
  change Decodes (sign x) (size x) (if e = -1#_ then if m = 0#_ then .infinity (sign x)
      else .notANumber
    else if e = 0#_ then if h : m = 0#_ then .zero (sign x)
      else .finite (sign x) m.toNat (e.toNat - (Format.binary64.exponentBias + 52) + 1) _
    else .finite (sign x) (1#1 ++ m).toNat (e.toNat - (Format.binary64.exponentBias + 52)) _)
  split_ifs with h₁ h₂ h₃ h₄
  · rw [hn, htop.1 h₁, hnone.1 h₂]
    exact .infinity _
  · apply Decodes.notANumber
    rw [hn, htop.1 h₁, infinityBits]
    have := mt hnone.2 h₂
    omega
  · rw [hn, hleast.1 h₃, hnone.1 h₄]
    exact .zero _
  · have := hleast.1 h₃
    have := mt hnone.2 h₄
    apply Decodes.finite_of
    · omega
    · rw [infinityBits]
      omega
    · rw [mantissa, if_pos] <;> omega
    · rw [exponent, hbias]
      omega
  · have := mt htop.2 h₁
    have := mt hleast.2 h₃
    apply Decodes.finite_of
    · omega
    · rw [infinityBits]
      omega
    · rw [mantissa, if_neg, toNat_implicit_append] <;> omega
    · rw [exponent, hbias]
      omega

section Compare

variable {s t : Sign} {m n : Nat} {u v : UnpackedFloat}

theorem Decodes.isFinite_iff (h : Decodes s n u) : u.isFinite ↔ n < infinityBits := by
  cases h with
  | zero => exact iff_of_true rfl (by decide)
  | finite hpos hlt => exact iff_of_true rfl hlt
  | infinity => exact iff_of_false Bool.false_ne_true (lt_irrefl _)
  | notANumber h => exact iff_of_false Bool.false_ne_true h.le.not_gt

theorem Decodes.isNaN_iff (h : Decodes s n u) : u.isNaN ↔ infinityBits < n := by
  cases h with
  | zero => exact iff_of_false Bool.false_ne_true (by decide)
  | finite hpos hlt => exact iff_of_false Bool.false_ne_true hlt.le.not_gt
  | infinity => exact iff_of_false Bool.false_ne_true (lt_irrefl _)
  | notANumber h => exact iff_of_true rfl h

/-- Exponents count before mantissas, as they do in the bits. -/
theorem compare_exponent_then (m n : Nat) :
    (compare (exponent m) (exponent n)).then (compare (mantissa m) (mantissa n)) =
      compare (m : Int) n := by
  rcases lt_trichotomy (exponent m) (exponent n) with he | he | he
  · have hlt : (m : Int) < n := by
      rw [exponent, exponent] at he
      omega
    rw [compare_lt_iff_lt.2 he, compare_lt_iff_lt.2 hlt]
    rfl
  · rw [compare_eq_iff_eq.2 he, Ordering.then]
    rw [exponent, exponent] at he
    rcases lt_trichotomy m n with h | rfl | h
    · rw [compare_lt_iff_lt.2 (Int.ofNat_lt.2 h), compare_lt_iff_lt, mantissa, mantissa]
      split <;> split <;> omega
    · rw [compare_eq_iff_eq.2 rfl, compare_eq_iff_eq.2 rfl]
    · rw [compare_gt_iff_gt.2 (Int.ofNat_lt.2 h), compare_gt_iff_gt, mantissa, mantissa]
      split <;> split <;> omega
  · have hlt : (n : Int) < m := by
      rw [exponent, exponent] at he
      omega
    rw [compare_gt_iff_gt.2 he, compare_gt_iff_gt.2 hlt]
    rfl

theorem swap_compare (a b : Int) : (compare a b).swap = compare (-a) (-b) := by
  rcases lt_trichotomy a b with h | rfl | h
  · rw [compare_lt_iff_lt.2 h, compare_gt_iff_gt.2 (neg_lt_neg h)]
    rfl
  · rw [compare_eq_iff_eq.2 rfl, compare_eq_iff_eq.2 rfl]
    rfl
  · rw [compare_gt_iff_gt.2 h, compare_lt_iff_lt.2 (neg_lt_neg h)]
    rfl

theorem some_lt {a b : Int} (h : a < b) : some Ordering.lt = some (compare a b) :=
  congrArg some (compare_lt_iff_lt.2 h).symm

theorem some_gt {a b : Int} (h : b < a) : some Ordering.gt = some (compare a b) :=
  congrArg some (compare_gt_iff_gt.2 h).symm

theorem apply_zero (s : Sign) : s.apply ((0 : Nat) : Int) = 0 := by
  cases s <;> rfl

theorem apply_between {k : Nat} (s : Sign) (h : k < infinityBits) :
    -(infinityBits : Int) < s.apply k ∧ s.apply k < infinityBits := by
  cases s <;> simp only [Sign.apply] <;> omega

theorem Decodes.compare_zero (hv : Decodes t n v) (hn : n ≤ infinityBits) (s : Sign) :
    (UnpackedFloat.zero s).compare v = some (compare 0 (t.apply n)) := by
  cases hv with
  | zero =>
    rw [apply_zero]
    rfl
  | finite hpos _ =>
    cases t with
    | positive => exact some_lt (Int.natCast_pos.2 hpos)
    | negative => exact some_gt (neg_lt_zero.2 (Int.natCast_pos.2 hpos))
  | infinity =>
    cases t with
    | positive => exact some_lt (by decide)
    | negative => exact some_gt (by decide)
  | notANumber h => exact absurd hn h.not_ge

theorem Decodes.compare_infinity (hv : Decodes t n v) (hn : n ≤ infinityBits) (s : Sign) :
    (UnpackedFloat.infinity s).compare v =
      some (compare (s.apply infinityBits) (t.apply n)) := by
  have hpositive (h : n < infinityBits) := some_gt (apply_between t h).2
  have hnegative (h : n < infinityBits) := some_lt (apply_between t h).1
  cases hv with
  | zero =>
    cases s with
    | positive => exact hpositive (by decide)
    | negative => exact hnegative (by decide)
  | finite _ hlt =>
    cases s with
    | positive => exact hpositive hlt
    | negative => exact hnegative hlt
  | infinity => cases s <;> cases t <;> rfl
  | notANumber h => exact absurd hn h.not_ge

theorem Decodes.compare_finite (hv : Decodes t n v) (hn : n ≤ infinityBits) (s : Sign)
    (hpos : 0 < m) (hlt : m < infinityBits) :
    (UnpackedFloat.finite s (mantissa m) (exponent m) (mantissa_pos hpos)).compare v =
      some (compare (s.apply m) (t.apply n)) := by
  cases hv with
  | zero =>
    rw [apply_zero]
    cases s with
    | positive => exact some_gt (Int.natCast_pos.2 hpos)
    | negative => exact some_lt (neg_lt_zero.2 (Int.natCast_pos.2 hpos))
  | finite hpos' _ =>
    cases s with
    | positive =>
      cases t with
      | positive => exact congrArg some (compare_exponent_then m n)
      | negative => exact some_gt (by simp only [Sign.apply]; omega)
    | negative =>
      cases t with
      | positive => exact some_lt (by simp only [Sign.apply]; omega)
      | negative =>
        have hswap := congrArg Ordering.swap (compare_exponent_then m n)
        exact congrArg some (hswap.trans (swap_compare m n))
  | infinity =>
    cases t with
    | positive => exact some_lt (apply_between s hlt).2
    | negative => exact some_gt (apply_between s hlt).1
  | notANumber h => exact absurd hn h.not_ge

/-- Of doubles other than the undefined value, the bits with the sign before them decide. -/
theorem Decodes.compare_eq (hu : Decodes s m u) (hv : Decodes t n v) (hm : m ≤ infinityBits)
    (hn : n ≤ infinityBits) : u.compare v = some (compare (s.apply m) (t.apply n)) := by
  cases hu with
  | zero =>
    rw [apply_zero]
    exact hv.compare_zero hn s
  | finite hpos hlt => exact hv.compare_finite hn s hpos hlt
  | infinity => exact hv.compare_infinity hn s
  | notANumber h => exact absurd hm h.not_ge

end Compare

section Doubles

variable {x y : Float}

/-- The bits without the sign, with the sign before them. -/
def rank (x : Float) : Int :=
  (sign x).apply (size x)

theorem isFinite_iff : x.isFinite ↔ size x < infinityBits :=
  (decodes x).isFinite_iff

theorem isNaN_iff : x.isNaN ↔ infinityBits < size x :=
  (decodes x).isNaN_iff

theorem not_isNaN_iff : x.isNaN = false ↔ size x ≤ infinityBits := by
  rw [← Bool.not_eq_true, isNaN_iff, not_lt]

theorem not_isNaN_of_isFinite (h : x.isFinite) : x.isNaN = false :=
  not_isNaN_iff.2 (isFinite_iff.1 h).le

theorem compare_eq (hx : x.isNaN = false) (hy : y.isNaN = false) :
    x.toModel.unpack.compare y.toModel.unpack = some (compare (rank x) (rank y)) :=
  (decodes x).compare_eq (decodes y) (not_isNaN_iff.1 hx) (not_isNaN_iff.1 hy)

theorem not_isNaN_of_le (h : x ≤ y) : x.isNaN = false ∧ y.isNaN = false := by
  have hle : (x.toModel.unpack.compare y.toModel.unpack).any (·.isLE) = true :=
    of_decide_eq_true h
  change x.toModel.unpack.isNaN = false ∧ y.toModel.unpack.isNaN = false
  generalize x.toModel.unpack = u at *
  generalize y.toModel.unpack = v at *
  constructor
  · cases u with
    | zero => rfl
    | finite => rfl
    | infinity => rfl
    | notANumber => exact absurd hle Bool.false_ne_true
  · cases v with
    | zero => rfl
    | finite => rfl
    | infinity => rfl
    | notANumber => cases u <;> exact absurd hle Bool.false_ne_true

protected theorem le_of_lt (h : x < y) : x ≤ y := by
  have hlt : (x.toModel.unpack.compare y.toModel.unpack == some .lt) = true := of_decide_eq_true h
  have hle : (x.toModel.unpack.compare y.toModel.unpack).any (·.isLE) = true := by
    rw [beq_iff_eq.1 hlt]
    rfl
  exact decide_eq_true hle

theorem le_iff_rank (hx : x.isNaN = false) (hy : y.isNaN = false) :
    x ≤ y ↔ rank x ≤ rank y := by
  have hle : x ≤ y ↔ (x.toModel.unpack.compare y.toModel.unpack).any (·.isLE) = true :=
    decide_eq_true_iff
  rw [hle, compare_eq hx hy, Option.any_some, Std.isLE_compare]

theorem lt_iff_rank (hx : x.isNaN = false) (hy : y.isNaN = false) :
    x < y ↔ rank x < rank y := by
  have hlt : x < y ↔ (x.toModel.unpack.compare y.toModel.unpack == some .lt) = true :=
    decide_eq_true_iff
  rw [hlt, compare_eq hx hy, beq_iff_eq, Option.some.injEq, compare_lt_iff_lt]

theorem beq_iff_rank (hx : x.isNaN = false) (hy : y.isNaN = false) :
    x == y ↔ rank x = rank y := by
  have hbeq : (x == y) = (x.toModel.unpack.compare y.toModel.unpack == some .eq) := rfl
  rw [hbeq, compare_eq hx hy, beq_iff_eq, Option.some.injEq, compare_eq_iff_eq]

/-- The place of a double in the total order, upwards from zero on one side and downwards from minus
one on the other. -/
def place : Sign → Nat → Int
  | .positive, n => n
  | .negative, n => -1 - n

theorem toNat_orderKey (x : Float) :
    ((orderKey x).toNat : Int) = 2 ^ 63 + place (sign x) (size x) := by
  have hhalf : (0x8000000000000000 : UInt64).toNat = 2 ^ 63 := rfl
  have hlast : (0xFFFFFFFFFFFFFFFF : UInt64).toNat = 2 ^ 64 - 1 := rfl
  have hlt := x.toBits.toNat_lt
  have hiff : x.toBits < 0x8000000000000000 ↔ x.toBits.toNat < 2 ^ 63 := UInt64.lt_iff_toNat_lt
  rw [orderKey, sign, size]
  by_cases h : x.toBits.toNat < 2 ^ 63
  · rw [if_pos h, if_pos (hiff.2 h), UInt64.toNat_add, hhalf, place]
    omega
  · rw [if_neg h, if_neg (mt hiff.1 h), UInt64.toNat_sub_of_le, hlast, place]
    · omega
    · rw [UInt64.le_iff_toNat_le, hlast]
      omega

theorem totalLE_iff_place : totalLE x y ↔ place (sign x) (size x) ≤ place (sign y) (size y) := by
  rw [totalLE, decide_eq_true_iff, UInt64.le_iff_toNat_le, ← Int.ofNat_le, toNat_orderKey,
    toNat_orderKey, add_le_add_iff_left]

theorem rank_le_of_totalLE (h : totalLE x y) : rank x ≤ rank y := by
  rw [totalLE_iff_place] at h
  rw [rank, rank]
  generalize sign x = s at *
  generalize sign y = t at *
  cases s <;> cases t <;> simp only [place, Sign.apply] at * <;> omega

/-- Only the two zeros are told apart by the total order and not by their ranks. -/
theorem totalLE_of_rank_le (h : rank x ≤ rank y)
    (hzero : ¬((sign x = .positive ∧ size x = 0) ∧ sign y = .negative ∧ size y = 0)) :
    totalLE x y := by
  rw [totalLE_iff_place]
  rw [rank, rank] at h
  generalize sign x = s at *
  generalize sign y = t at *
  cases s <;> cases t <;> simp only [place, Sign.apply, true_and] at * <;> omega

protected theorem not_le_of_lt (h : x < y) : ¬y ≤ x := by
  obtain ⟨hx, hy⟩ := not_isNaN_of_le (Double.le_of_lt h)
  rw [lt_iff_rank hx hy] at h
  rw [le_iff_rank hy hx]
  exact h.not_ge

theorem not_le_of_totalLE {z : Float} (h : totalLE x y) (hlt : y < z) : ¬z ≤ x := by
  intro hle
  obtain ⟨hz, hx⟩ := not_isNaN_of_le hle
  obtain ⟨hy, -⟩ := not_isNaN_of_le (Double.le_of_lt hlt)
  rw [lt_iff_rank hy hz] at hlt
  rw [le_iff_rank hz hx] at hle
  have := rank_le_of_totalLE h
  omega

end Doubles

end Curves.Double
