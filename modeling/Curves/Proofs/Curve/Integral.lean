import Curves.Curve.Integral
import Curves.Proofs.Curve.Domain

namespace Curves.Curve

universe u

variable {α : Type u} [Scalar α] {lo hi reached k : α} {f : Curve α}
  {bands gs : List (Band α (Curve α))}

theorem antiderivative_affine_ok {t : Affine α} {g : Curve α} (h : f.antiderivative k = .ok g) :
    (affine t f).antiderivative k = .ok (affine t.antiderivative g) := by
  rw [antiderivative, h]
  rfl

theorem antiderivativeAfter_cons_ok_iff :
    antiderivativeAfter (⟨lo, hi, f⟩ :: bands) reached = .ok gs ↔
      ∃ g rest, f.antiderivative 0 = .ok g ∧
        antiderivativeAfter bands ((g.raise (reached - g.eval lo)).eval hi) = .ok rest ∧
        gs = ⟨lo, hi, g.raise (reached - g.eval lo)⟩ :: rest := by
  rw [antiderivativeAfter]
  constructor
  · intro h
    cases hg : f.antiderivative 0 with
    | error e =>
      rw [hg] at h
      cases h
    | ok g =>
      rw [hg] at h
      change (antiderivativeAfter bands _ >>= _) = _ at h
      cases hrest : antiderivativeAfter bands ((g.raise (reached - g.eval lo)).eval hi) with
      | error e =>
        rw [hrest] at h
        cases h
      | ok rest =>
        rw [hrest] at h
        cases h
        exact ⟨g, rest, rfl, hrest, rfl⟩
  · rintro ⟨g, rest, hg, hrest, rfl⟩
    rw [hg]
    change (antiderivativeAfter bands _ >>= _) = _
    rw [hrest]
    rfl

theorem antiderivative_cons_ok {g : Curve α} (hg : f.antiderivative k = .ok g)
    (hgs : antiderivativeAfter bands (g.eval hi) = .ok gs) :
    (piecewise (⟨lo, hi, f⟩ :: bands)).antiderivative k =
      .ok (piecewise (⟨lo, hi, g⟩ :: gs)) := by
  rw [antiderivative, antiderivativeFrom, hg]
  change ((antiderivativeAfter bands _ >>= _) >>= _) = _
  rw [hgs]
  rfl

theorem ranges_antiderivativeAfter (h : antiderivativeAfter bands reached = .ok gs) :
    Bands.ranges gs = Bands.ranges bands := by
  induction bands generalizing reached gs with
  | nil =>
    cases h
    rfl
  | cons b bands ih =>
    obtain ⟨g, rest, -, hrest, rfl⟩ := antiderivativeAfter_cons_ok_iff.1 h
    exact congrArg ((b.min, b.max) :: ·) (ih hrest)

theorem exists_ranges_antiderivative (h : (piecewise bands).antiderivative k = .ok f) :
    ∃ gs, f = piecewise gs ∧ Bands.ranges gs = Bands.ranges bands := by
  cases bands with
  | nil =>
    cases h
    exact ⟨[], rfl, rfl⟩
  | cons b bands =>
    rw [antiderivative, antiderivativeFrom] at h
    cases hg : b.body.antiderivative k with
    | error e =>
      rw [hg] at h
      cases h
    | ok g =>
      rw [hg] at h
      change ((antiderivativeAfter bands (g.eval b.max) >>= _) >>= _) = _ at h
      cases hrest : antiderivativeAfter bands (g.eval b.max) with
      | error e =>
        rw [hrest] at h
        cases h
      | ok rest =>
        rw [hrest] at h
        cases h
        exact ⟨_, rfl, congrArg ((b.min, b.max) :: ·) (ranges_antiderivativeAfter hrest)⟩

end Curves.Curve
