import Curves.Proofs.Double.Rank
import Curves.Proofs.Trace.Grid

namespace Curves.Trace

open Scalar
open Double (mantissa exponent)

/-- Shifted to the left by eleven bits at most, a mantissa stays clear of the sixty-fifth bit. -/
theorem shiftLeft_mantissa_le {n k : Nat} (hk : (k : Int) = exponent n)
    (hle : mantissa n <<< k ≤ maxCount) : mantissa n <<< k ≤ 2 ^ 64 - 2048 := by
  have hlt := Double.mantissa_lt n
  rw [Nat.shiftLeft_eq] at *
  rcases Nat.lt_or_ge 11 k with hlarge | hsmall
  · have hfull : 2 ^ 52 ≤ mantissa n := (Double.le_mantissa_or n).resolve_right (by omega)
    have hover : 2 ^ 52 * 2 ^ 12 ≤ mantissa n * 2 ^ k :=
      Nat.mul_le_mul hfull (Nat.pow_le_pow_right two_pos hlarge)
    rw [maxCount] at hle
    omega
  · have hbound : mantissa n * 2 ^ k ≤ (2 ^ 53 - 1) * 2 ^ 11 :=
      Nat.mul_le_mul (Nat.le_pred_of_lt hlt) (Nat.pow_le_pow_right two_pos hsmall)
    omega

theorem floor?_le {x : Float} {steps : Nat} (h : floor? x = some steps) (hle : steps ≤ maxCount) :
    steps ≤ 2 ^ 64 - 2048 := by
  have hdecodes := Double.decodes x
  change Double.floor? x = some steps at h
  rw [Double.floor?] at h
  generalize x.toModel.unpack = u at *
  generalize Double.size x = n at *
  generalize Double.sign x = s at *
  cases hdecodes with
  | zero =>
    obtain rfl := Option.some.inj h
    exact Nat.zero_le _
  | infinity => exact absurd h (Option.some_ne_none _).symm
  | notANumber => exact absurd h (Option.some_ne_none _).symm
  | finite =>
    cases s with
    | negative =>
      obtain rfl := Option.some.inj h
      exact Nat.zero_le _
    | positive =>
      obtain rfl := Option.some.inj h
      split at hle
      case isTrue he =>
        rw [if_pos he]
        exact shiftLeft_mantissa_le (Int.toNat_of_nonneg he) hle
      case isFalse he =>
        have hlt := Double.mantissa_lt n
        have hdiv : mantissa n >>> (-exponent n).toNat ≤ mantissa n := Nat.shiftRight_le _ _
        rw [if_neg he]
        omega

theorem succ_le_maxCount {x : Float} {steps : Nat} (h : floor? x = some steps)
    (hle : steps ≤ maxCount) : steps + 1 ≤ maxCount := by
  have := floor?_le h hle
  rw [maxCount]
  omega

theorem count_ofRange_le (f : Curve Float) (lo hi step : Float) :
    (ofRange f lo hi step).count ≤ maxCount := by
  rw [ofRange]
  dsimp only
  split
  case isTrue =>
    rw [gridCount]
    split
    case h_1 => exact le_rfl
    case h_2 steps h =>
      split
      case isTrue => exact le_rfl
      case isFalse hsteps => exact succ_le_maxCount h (not_lt.1 hsteps)
  case isFalse => exact Nat.zero_le _

/-- A place within a trace, all of whose points can be counted. -/
structure IsCounted (w : Walk Float) : Prop where
  index_le : w.index ≤ w.trace.count
  count_le : w.trace.count ≤ maxCount

section Walks

variable {w v : Walk Float} {p : Point Float}

theorem isCounted_walk {t : Trace Float} (h : t.count ≤ maxCount) : IsCounted t.walk :=
  ⟨Nat.zero_le _, h⟩

theorem next?_eq_some_iff :
    w.next? = some (p, v) ↔ w.index < w.trace.count ∧ p = w.trace.point w.index ∧
      v = ⟨w.trace, w.index + 1⟩ := by
  rcases lt_or_ge w.index w.trace.count with h | h
  · rw [Walk.next?_of_lt h, and_iff_right h, Option.some.injEq, Prod.mk.injEq, eq_comm,
      eq_comm (b := v)]
  · rw [Walk.next?_of_le h]
    exact iff_of_false (Option.some_ne_none _).symm fun hv => h.not_gt hv.1

theorem IsCounted.next (h : IsCounted w) (hnext : w.next? = some (p, v)) : IsCounted v := by
  obtain ⟨hlt, -, rfl⟩ := next?_eq_some_iff.1 hnext
  exact ⟨hlt, h.count_le⟩

theorem IsCounted.take (h : IsCounted w) (n : Nat) : IsCounted (w.take n).2 := by
  induction n generalizing w with
  | zero => exact h
  | succ n ih =>
    rw [Walk.take]
    cases hnext : w.next? with
    | none => exact h
    | some next => exact ih (h.next hnext)

/-- In words of 64 bits, a walk counts as it does in natural numbers: the place goes up by one with
every point, and the number of points that are left is a difference. -/
structure CountsInWords (w : Walk Float) : Prop where
  index_le : w.index ≤ w.trace.count
  advances : ∀ p v, w.next? = some (p, v) → (UInt64.ofNat w.index + 1).toNat = v.index
  remaining : (UInt64.ofNat w.trace.count - UInt64.ofNat w.index).toNat = w.remaining

theorem IsCounted.countsInWords (h : IsCounted w) : CountsInWords w := by
  have hcount := h.count_le
  have hindex := h.index_le
  have hword {n : Nat} (hn : n ≤ maxCount) : (UInt64.ofNat n).toNat = n := by
    rw [maxCount] at hn
    exact UInt64.toNat_ofNat_of_lt' (Nat.lt_succ_of_le hn)
  constructor
  case index_le => exact hindex
  case advances =>
    intro p v hnext
    obtain ⟨hlt, -, rfl⟩ := next?_eq_some_iff.1 hnext
    have hsum : UInt64.ofNat w.index + 1 = UInt64.ofNat (w.index + 1) :=
      (UInt64.ofNat_add w.index 1).symm
    rw [hsum]
    exact hword (hlt.trans_le hcount)
  case remaining =>
    have hle : UInt64.ofNat w.index ≤ UInt64.ofNat w.trace.count := by
      rw [UInt64.le_iff_toNat_le, hword hcount, hword (hindex.trans hcount)]
      exact hindex
    rw [UInt64.toNat_sub_of_le _ _ hle, hword hcount, hword (hindex.trans hcount)]
    rfl

end Walks

/-- For any three doubles, the number of points of a trace and the place on the way along it never
wrap around. -/
theorem counters_never_wrap (f : Curve Float) (lo hi step : Float) :
    (∀ steps, floor? ((hi - lo) / step) = some steps → steps ≤ maxCount →
      steps + 1 ≤ maxCount) ∧
      ∀ n, CountsInWords ((ofRange f lo hi step).walk.take n).2 := by
  constructor
  · exact fun steps => succ_le_maxCount
  · intro n
    exact ((isCounted_walk (count_ofRange_le f lo hi step)).take n).countsInWords

end Curves.Trace
