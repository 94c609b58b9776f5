import Curves.Curve
import Curves.Proofs.Exact

namespace Curves

universe u v

namespace Bands

variable {α : Type u} {β γ : Type v}

def ranges (bs : List (Band α β)) : List (α × α) :=
  bs.map fun b => (b.min, b.max)

variable [Scalar α]

def Covers (bs : List (Band α β)) (x : α) : Prop :=
  ∃ b ∈ bs, b.contains x

theorem covers_iff_ranges {bs : List (Band α β)} {x : α} :
    Covers bs x ↔ ∃ r ∈ ranges bs, r.1 ≤ x ∧ x ≤ r.2 := by
  simp only [Covers, ranges, List.mem_map, Band.contains, Bool.and_eq_true, decide_eq_true_eq]
  constructor
  · rintro ⟨b, hb, hx⟩
    exact ⟨_, ⟨b, hb, rfl⟩, hx⟩
  · rintro ⟨_, ⟨b, hb, rfl⟩, hx⟩
    exact ⟨b, hb, hx⟩

theorem covers_congr {bs : List (Band α β)} {cs : List (Band α γ)} (h : ranges bs = ranges cs)
    (x : α) : Covers bs x ↔ Covers cs x := by
  rw [covers_iff_ranges, covers_iff_ranges, h]

theorem mem_of_at? {bs : List (Band α β)} {x : α} {b : Band α β} (h : at? bs x = some b) :
    b ∈ bs ∧ b.contains x := by
  rw [at?, List.find?_eq_some_iff_append] at h
  obtain ⟨hx, before, after, rfl, -⟩ := h
  exact ⟨List.mem_append_right _ List.mem_cons_self, hx⟩

theorem covers_cons {b : Band α β} {bs : List (Band α β)} {x : α} :
    Covers (b :: bs) x ↔ b.contains x ∨ Covers bs x := by
  simp only [Covers, List.mem_cons, exists_eq_or_imp]

end Bands

namespace Curve

section Scalars

variable {α : Type u} [Scalar α]

theorem eval_cons (b : Band α (Curve α)) (bands : List (Band α (Curve α))) (x : α) :
    (piecewise (b :: bands)).eval x =
      if b.contains x then b.body.eval x else (piecewise bands).eval x := by
  rw [eval, evalBands, eval]

theorem eval_cons_of_not {b : Band α (Curve α)} {bands : List (Band α (Curve α))} {x : α}
    (hx : ¬b.contains x) : (piecewise (b :: bands)).eval x = (piecewise bands).eval x := by
  rw [eval_cons, if_neg hx]

theorem ranges_derivativeBands (bands : List (Band α (Curve α))) :
    Bands.ranges (derivativeBands bands) = Bands.ranges bands := by
  rw [derivativeBands_eq_map, Bands.ranges, List.map_map]
  rfl

theorem ranges_raiseBands (bands : List (Band α (Curve α))) (v : α) :
    Bands.ranges (raiseBands bands v) = Bands.ranges bands := by
  rw [raiseBands_eq_map, Bands.ranges, List.map_map]
  rfl

end Scalars

variable {K : Type u} [Field K] [LinearOrder K] [Elementary K]

open Exact (value)

def IsTotal (f : Curve (Exact K)) : Prop :=
  ∀ x, (f.eval (value x)).IsValue

theorem exists_at?_of_eval {bands : List (Band (Exact K) (Curve (Exact K)))} {x : Exact K} {v : K}
    (h : (piecewise bands).eval x = value v) :
    ∃ b, Bands.at? bands x = some b ∧ b.body.eval x = value v := by
  rw [eval, evalBands_eq] at h
  cases hb : Bands.at? bands x with
  | none =>
    rw [hb] at h
    cases h
  | some b =>
    rw [hb] at h
    exact ⟨b, rfl, h⟩

theorem contains_isValue {β : Type v} {b : Band (Exact K) β} {x : Exact K} (h : b.contains x) :
    x.IsValue := by
  cases x with
  | undefined => simp [Band.contains] at h
  | value a => exact Exact.isValue_value a

section Contains

variable {lo hi x : K} {f : Curve (Exact K)} {bands : List (Band (Exact K) (Curve (Exact K)))}

theorem contains_iff {β : Type v} {f : β} :
    Band.contains ⟨value lo, value hi, f⟩ (value x) ↔ lo ≤ x ∧ x ≤ hi := by
  simp only [Band.contains, Exact.value_le, Bool.and_eq_true, decide_eq_true_eq]

theorem not_contains_of_lt {β : Type v} {f : β} (hx : hi < x) :
    ¬Band.contains ⟨value lo, value hi, f⟩ (value x) := by
  rw [contains_iff]
  exact fun h => absurd h.2 (not_le.2 hx)

theorem at?_cons_of_le (hlo : lo ≤ x) (hhi : x ≤ hi) :
    Bands.at? (⟨value lo, value hi, f⟩ :: bands) (value x) = some ⟨value lo, value hi, f⟩ := by
  rw [Bands.at?_cons, if_pos (contains_iff.2 ⟨hlo, hhi⟩)]

theorem at?_cons_of_lt (hx : hi < x) :
    Bands.at? (⟨value lo, value hi, f⟩ :: bands) (value x) = Bands.at? bands (value x) := by
  rw [Bands.at?_cons, if_neg (not_contains_of_lt hx)]

theorem eval_cons_of_le (hlo : lo ≤ x) (hhi : x ≤ hi) :
    (piecewise (⟨value lo, value hi, f⟩ :: bands)).eval (value x) = f.eval (value x) := by
  rw [eval_cons, if_pos (contains_iff.2 ⟨hlo, hhi⟩)]

theorem eval_cons_of_lt (hx : hi < x) :
    (piecewise (⟨value lo, value hi, f⟩ :: bands)).eval (value x) =
      (piecewise bands).eval (value x) := by
  rw [eval_cons, if_neg (not_contains_of_lt hx)]

theorem eval_cons_eq_iff {g : Curve (Exact K)} {gs : List (Band (Exact K) (Curve (Exact K)))}
    (h : lo < hi) :
    (∀ x, lo < x → (piecewise (⟨value lo, value hi, g⟩ :: gs)).eval (value x) =
        (piecewise (⟨value lo, value hi, f⟩ :: bands)).eval (value x)) ↔
      (∀ x, lo < x → x ≤ hi → g.eval (value x) = f.eval (value x)) ∧
        ∀ x, hi < x → (piecewise gs).eval (value x) = (piecewise bands).eval (value x) := by
  constructor
  · intro heq
    constructor
    · intro x hlo hhi
      have hx := heq x hlo
      rwa [eval_cons_of_le hlo.le hhi, eval_cons_of_le hlo.le hhi] at hx
    · intro x hx
      have hx' := heq x (h.trans hx)
      rwa [eval_cons_of_lt hx, eval_cons_of_lt hx] at hx'
  · rintro ⟨hfirst, hrest⟩ x hlo
    by_cases hhi : x ≤ hi
    · rw [eval_cons_of_le hlo.le hhi, eval_cons_of_le hlo.le hhi, hfirst x hlo hhi]
    · have hx := not_le.1 hhi
      rw [eval_cons_of_lt hx, eval_cons_of_lt hx, hrest x hx]

end Contains

theorem isValue_eval_iff {bands : List (Band (Exact K) (Curve (Exact K)))}
    (h : ∀ b ∈ bands, b.body.IsTotal) (x : Exact K) :
    ((piecewise bands).eval x).IsValue ↔ Bands.Covers bands x := by
  induction bands with
  | nil => exact ⟨nofun, nofun⟩
  | cons b bands ih =>
    obtain ⟨hb, hbs⟩ := List.forall_mem_cons.1 h
    rw [eval_cons, Bands.covers_cons]
    by_cases hx : b.contains x
    · obtain ⟨a, rfl⟩ := contains_isValue hx
      rw [if_pos hx]
      exact ⟨fun _ => .inl hx, fun _ => hb a⟩
    · rw [if_neg hx, ih hbs]
      exact ⟨.inr, fun h => h.resolve_left hx⟩

theorem eval_eq_undefined_congr {bands gs : List (Band (Exact K) (Curve (Exact K)))}
    (hr : Bands.ranges gs = Bands.ranges bands) (hg : ∀ c ∈ gs, c.body.IsTotal)
    (hb : ∀ b ∈ bands, b.body.IsTotal) (x : Exact K) :
    (piecewise gs).eval x = .undefined ↔ (piecewise bands).eval x = .undefined := by
  rw [← Exact.not_isValue_iff, ← Exact.not_isValue_iff, isValue_eval_iff hg, isValue_eval_iff hb,
    Bands.covers_congr hr]

end Curve
end Curves
