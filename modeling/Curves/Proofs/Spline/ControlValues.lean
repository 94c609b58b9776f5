import Curves.Proofs.Double.Arithmetic
import Curves.Proofs.Spline.Duplicates
import Curves.Proofs.Spline.Neighbours

namespace Curves.Spline

universe u

open Scalar

section Scalars

variable {α : Type u} [Scalar α]

def joint (p q : ControlPoint α) : α :=
  (p.x + q.x) / 2

/-- The half of the span between `p` and `q` that lies at `p`. -/
def halfAfter (options : Options) (o? : Option (ControlPoint α)) (p q : ControlPoint α)
    (r? : Option (ControlPoint α)) : Polynomial α :=
  let slopes := spanSlopes (secant p q) (slopeBetween (innerSlope options) o? p (some q))
    (slopeBetween (innerSlope options) (some p) q r?)
  halfSpan p slopes.1 (joint p q) slopes.2.1

def halfBefore (options : Options) (o? : Option (ControlPoint α)) (p q : ControlPoint α)
    (r? : Option (ControlPoint α)) : Polynomial α :=
  let slopes := spanSlopes (secant p q) (slopeBetween (innerSlope options) o? p (some q))
    (slopeBetween (innerSlope options) (some p) q r?)
  halfSpan q slopes.2.2 (joint p q) slopes.2.1

theorem span_eq_halves (options : Options) (o? : Option (ControlPoint α)) (p q : ControlPoint α)
    (r? : Option (ControlPoint α)) :
    span p q (slopeBetween (innerSlope options) o? p (some q))
        (slopeBetween (innerSlope options) (some p) q r?) =
      [⟨p.x, joint p q, .polynomial (halfAfter options o? p q r?)⟩,
        ⟨joint p q, q.x, .polynomial (halfBefore options o? p q r?)⟩] :=
  rfl

theorem exists_spans_eq (p q : ControlPoint α) (points : List (ControlPoint α))
    (b e : Option α) (slopes : List (Option α)) :
    ∃ f g, spans (p :: q :: points) (b :: e :: slopes) =
      ⟨p.x, joint p q, f⟩ :: ⟨joint p q, q.x, g⟩ :: spans (q :: points) (e :: slopes) :=
  ⟨_, _, rfl⟩

variable {sorted : List (ControlPoint α)} {o p q : ControlPoint α}
  {o? r? : Option (ControlPoint α)}

theorem mem_spans_halfAfter (h : Neighbours sorted o? p q r?) (options : Options) :
    ⟨p.x, joint p q, .polynomial (halfAfter options o? p q r?)⟩ ∈
      spans sorted (slopes options sorted) :=
  mem_spans_iff.2 ⟨o?, p, q, r?, h, List.mem_cons_self⟩

theorem mem_spans_halfBefore (h : Neighbours sorted o? p q r?) (options : Options) :
    ⟨joint p q, q.x, .polynomial (halfBefore options o? p q r?)⟩ ∈
      spans sorted (slopes options sorted) :=
  mem_spans_iff.2 ⟨o?, p, q, r?, h, List.mem_cons_of_mem _ List.mem_cons_self⟩

theorem head?_spans (h : Neighbours sorted none p q r?) (options : Options) :
    (spans sorted (slopes options sorted)).head? =
      some ⟨p.x, joint p q, .polynomial (halfAfter options none p q r?)⟩ := by
  obtain ⟨before, after, rfl, hbefore, rfl⟩ := h
  obtain rfl := List.getLast?_eq_none_iff.1 hbefore
  rw [List.nil_append, slopes, slopesAfter_cons, spans]
  have hfirst : p.slope? = slopeBetween (innerSlope options) none p (some q) :=
    Option.or_none.symm
  rw [hfirst, span_eq_halves]
  rfl

variable [LawfulOrder α]

def JoinsBetween (p q : ControlPoint α) : Prop :=
  totalLE p.x (joint p q) ∧ totalLE (joint p q) q.x

theorem totalLE_refl (a : α) : totalLE a a :=
  (LawfulOrder.total a a).elim id id

theorem pairwise_spans {points : List (ControlPoint α)}
    (h : (p :: points).IsChain JoinsBetween) (slopes : List (Option α)) :
    (∀ b ∈ spans (p :: points) slopes, totalLE p.x b.min ∧ totalLE b.min b.max) ∧
      (spans (p :: points) slopes).Pairwise fun b c => totalLE b.max c.min := by
  induction points generalizing p slopes with
  | nil => exact ⟨List.forall_mem_nil _, .nil⟩
  | cons q points ih =>
    obtain ⟨⟨hleft, hright⟩, hrest⟩ := List.isChain_cons_cons.1 h
    have hpq := LawfulOrder.trans p.x (joint p q) q.x hleft hright
    rcases slopes with _ | ⟨b, _ | ⟨e, slopes⟩⟩
    · exact ⟨List.forall_mem_nil _, .nil⟩
    · exact ⟨List.forall_mem_nil _, .nil⟩
    · obtain ⟨hends, hpairs⟩ := ih hrest (e :: slopes)
      have hnext : ∀ c ∈ spans (q :: points) (e :: slopes), totalLE q.x c.min :=
        fun c hc => (hends c hc).1
      obtain ⟨f, g, hspans⟩ := exists_spans_eq p q points b e slopes
      rw [hspans]
      constructor
      · refine List.forall_mem_cons.2 ⟨⟨totalLE_refl p.x, hleft⟩, ?_⟩
        refine List.forall_mem_cons.2 ⟨⟨hleft, hright⟩, ?_⟩
        intro c hc
        exact ⟨LawfulOrder.trans p.x q.x c.min hpq (hnext c hc), (hends c hc).2⟩
      · apply List.Pairwise.cons
        · refine List.forall_mem_cons.2 ⟨totalLE_refl (joint p q), ?_⟩
          exact fun c hc => LawfulOrder.trans (joint p q) q.x c.min hright (hnext c hc)
        · exact .cons hnext hpairs

theorem pairwise_spans_slopes (h : sorted.IsChain JoinsBetween) (options : Options) :
    (spans sorted (slopes options sorted)).Pairwise fun b c => totalLE b.max c.min := by
  cases sorted with
  | nil => exact .nil
  | cons p points => exact (pairwise_spans h _).2

theorem ofList_spans (h : sorted.IsChain JoinsBetween) (options : Options) :
    Bands.ofList (spans sorted (slopes options sorted)) = spans sorted (slopes options sorted) := by
  apply List.mergeSort_of_pairwise
  cases sorted with
  | nil => exact .nil
  | cons p points =>
    obtain ⟨hends, hpairs⟩ := pairwise_spans h (slopes options (p :: points))
    apply hpairs.imp_of_mem
    intro b c hb hc hbc
    exact LawfulOrder.trans b.min b.max c.min (hends b hb).2 hbc

end Scalars

section Doubles

variable {points sorted : List (ControlPoint Float)} {o p q : ControlPoint Float}
  {o? r? : Option (ControlPoint Float)} {x : Float}

/-- Of bands that follow each other, the one that begins below a place and holds it is read. -/
theorem at?_of_follows {β : Type} {bs : List (Band Float β)} {b : Band Float β}
    (hbs : bs.Pairwise fun b c => totalLE b.max c.min) (hb : b ∈ bs) (hlt : b.min < x)
    (hle : x ≤ b.max) : Bands.at? bs x = some b := by
  have hmin : b.min ≤ x := Double.le_of_lt hlt
  have hcontains : b.contains x := by
    rw [Band.contains, decide_eq_true hmin, decide_eq_true hle]
    rfl
  induction bs with
  | nil => exact absurd hb List.not_mem_nil
  | cons c bs ih =>
    obtain ⟨hc, hbs⟩ := List.pairwise_cons.1 hbs
    rw [Bands.at?_cons]
    rcases List.mem_cons.1 hb with rfl | hb
    · rw [if_pos hcontains]
    · have hbelow : ¬x ≤ c.max := Double.not_le_of_totalLE (hc b hb) hlt
      have hnot : c.contains x = false := by
        rw [Band.contains, decide_eq_false hbelow, Bool.and_false]
      rw [hnot, if_neg Bool.false_ne_true, ih hbs hb]

theorem isChain_joinsBetween (hfinite : ∀ p ∈ sorted, p.x.isFinite)
    (hlt : sorted.Pairwise fun p q => p.x < q.x)
    (hjoint : sorted.IsChain fun p q => (joint p q).isFinite) : sorted.IsChain JoinsBetween := by
  rw [List.isChain_iff_forall_rel_of_append_cons_cons] at hjoint ⊢
  rintro p q before after rfl
  have hp : p ∈ before ++ p :: q :: after :=
    List.mem_append_right _ List.mem_cons_self
  have hq : q ∈ before ++ p :: q :: after :=
    List.mem_append_right _ (List.mem_cons_of_mem _ List.mem_cons_self)
  have hpq : p.x < q.x := ((neighbours_append before after p q).related hlt).2.1
  exact Double.middle_between (hfinite p hp) (hfinite q hq) hpq (hjoint rfl)

theorem pairwise_sortPoints (hfinite : ∀ p ∈ points, p.x.isFinite)
    (hx : points.Pairwise fun p q => ¬p.x == q.x) :
    (sortPoints points).Pairwise fun p q => p.x < q.x := by
  have hnan (p : ControlPoint Float) (hp : p ∈ points) : p.x.isNaN = false :=
    Double.not_isNaN_of_isFinite (hfinite p hp)
  have hrise := pairwise_lt_ranks_sortPoints_iff.2 ((nodup_ranks_iff hnan).2 hx)
  apply (List.pairwise_map.1 hrise).imp_of_mem
  intro p q hp hq hpq
  have hp : p ∈ points := List.mem_mergeSort.1 hp
  have hq : q ∈ points := List.mem_mergeSort.1 hq
  exact (Double.lt_iff_rank (hnan p hp) (hnan q hq)).2 hpq

theorem hasRepeat_of_ascending (h : sorted.Pairwise fun p q => p.x < q.x) :
    hasRepeat sorted = false :=
  hasRepeat_eq_false_iff.2 (h.isChain.imp fun _ _ => Double.not_le_of_lt)

/-- Around its origin a half takes the control value exactly if all its coefficients are finite. -/
theorem eval_halfSpan_iff (hx : p.x.isFinite) (hy : p.y.isFinite) (slope midX midSlope : Float) :
    (halfSpan p slope midX midSlope).eval p.x == p.y ↔
      ∀ c ∈ (halfSpan p slope midX midSlope).coefs, c.isFinite := by
  have hzero := Double.unpack_sub_self hx
  constructor
  · intro h
    obtain ⟨hinner, -⟩ := (Double.isFinite_mulAdd_zero hzero).1 (Double.isFinite_of_beq h hy)
    obtain ⟨hlast, hslope⟩ := (Double.isFinite_mulAdd_zero hzero).1 hinner
    rintro c (_ | ⟨_, _ | ⟨_, _ | ⟨_, hc⟩⟩⟩)
    · exact hy
    · exact hslope
    · exact hlast
    · exact absurd hc List.not_mem_nil
  · intro h
    have hslope : slope.isFinite := h _ (List.mem_cons_of_mem _ List.mem_cons_self)
    have hlast := h _ (List.mem_cons_of_mem _ (List.mem_cons_of_mem _ List.mem_cons_self))
    have hinner := (Double.isFinite_mulAdd_zero hzero).2 ⟨hlast, hslope⟩
    exact Double.mulAdd_zero_beq hinner hzero hy

section Reading

variable (hjoins : (sortPoints points).IsChain JoinsBetween) (options : Options)
include hjoins

theorem eval_spline {b : Band Float (Curve Float)}
    (h : Bands.at? (spans (sortPoints points) (slopes options (sortPoints points))) x = some b) :
    (Curve.spline options points).eval x = b.body.eval x := by
  rw [Curve.spline, Curve.eval, bands, ofList_spans hjoins, Curve.evalBands_eq, h]

theorem eval_first (h : Neighbours (sortPoints points) none p q r?) (hx : p.x.isFinite)
    (hjoint : (joint p q).isFinite) :
    (Curve.spline options points).eval p.x = (halfAfter options none p q r?).eval p.x := by
  have hnan := Double.not_isNaN_of_isFinite hx
  have hself : p.x ≤ p.x := (Double.le_iff_rank hnan hnan).2 le_rfl
  have hle : p.x ≤ joint p q :=
    (Double.le_iff_rank hnan (Double.not_isNaN_of_isFinite hjoint)).2
      (Double.rank_le_of_totalLE (h.related_of_isChain hjoins).2.1.1)
  obtain ⟨rest, hrest⟩ := List.head?_eq_some_iff.1 (head?_spans h options)
  have hfirst : Bands.at? (spans (sortPoints points) (slopes options (sortPoints points))) p.x =
      some ⟨p.x, joint p q, .polynomial (halfAfter options none p q r?)⟩ := by
    rw [hrest, Bands.at?_cons, Band.contains, decide_eq_true hself, decide_eq_true hle]
    rfl
  exact eval_spline hjoins options hfirst

/-- Where the middle of the span before a point lies below it, the half around it is read. -/
theorem eval_own (h : Neighbours (sortPoints points) o? o p r?) (hx : p.x.isFinite)
    (hlt : joint o p < p.x) :
    (Curve.spline options points).eval p.x = (halfBefore options o? o p r?).eval p.x := by
  have hnan := Double.not_isNaN_of_isFinite hx
  have hle : p.x ≤ p.x := (Double.le_iff_rank hnan hnan).2 le_rfl
  have hband := at?_of_follows (pairwise_spans_slopes hjoins options)
    (mem_spans_halfBefore h options) hlt hle
  exact eval_spline hjoins options hband

theorem eval_previous (h : Neighbours (sortPoints points) o? o p r?) (hx : p.x.isFinite)
    (hop : o.x < p.x) (hjoint : (joint o p).isFinite) (hge : ¬joint o p < p.x) :
    (Curve.spline options points).eval p.x = (halfAfter options o? o p r?).eval p.x := by
  have hnan := Double.not_isNaN_of_isFinite hx
  have hnanJoint := Double.not_isNaN_of_isFinite hjoint
  have hle : p.x ≤ joint o p := by
    rw [Double.lt_iff_rank hnanJoint hnan, not_lt] at hge
    exact (Double.le_iff_rank hnan hnanJoint).2 hge
  have hband := at?_of_follows (pairwise_spans_slopes hjoins options)
    (mem_spans_halfAfter h options) hop hle
  exact eval_spline hjoins options hband

end Reading

/-- What it takes for a spline to have its control value at `p`. The parabola around `p` needs
finite coefficients. If the middle of the span before `p` is rounded up to `p`, the parabola around
the point before it is read instead, and has to come out at the value of `p`. -/
inductive TakesValue (options : Options) (sorted : List (ControlPoint Float))
    (p : ControlPoint Float) : Prop
  | first {q : ControlPoint Float} {r? : Option (ControlPoint Float)}
      (h : Neighbours sorted none p q r?)
      (hcoefs : ∀ c ∈ (halfAfter options none p q r?).coefs, c.isFinite)
  | own {o? r? : Option (ControlPoint Float)} {o : ControlPoint Float}
      (h : Neighbours sorted o? o p r?) (hlt : joint o p < p.x)
      (hcoefs : ∀ c ∈ (halfBefore options o? o p r?).coefs, c.isFinite)
  | previous {o? r? : Option (ControlPoint Float)} {o : ControlPoint Float}
      (h : Neighbours sorted o? o p r?) (hge : ¬joint o p < p.x)
      (hvalue : (halfAfter options o? o p r?).eval p.x == p.y)

/-- A spline through finite points at different places, with middles that do not overflow, comes
without a warning, and takes the control values just where the halves that are read there allow
it. -/
theorem eval_controlPoint_iff (options : Options) (hn : 2 ≤ points.length)
    (hfinite : ∀ p ∈ points, p.x.isFinite ∧ p.y.isFinite)
    (hx : points.Pairwise fun p q => ¬p.x == q.x)
    (hjoint : (sortPoints points).IsChain fun p q => (joint p q).isFinite) :
    warnings points = [] ∧ ∀ p ∈ points,
      (Curve.spline options points).eval p.x == p.y ↔
        TakesValue options (sortPoints points) p := by
  have hperm : (sortPoints points).Perm points := List.mergeSort_perm _ _
  have hlt := pairwise_sortPoints (fun p hp => (hfinite p hp).1) hx
  have hjoins := isChain_joinsBetween (fun p hp => (hfinite p (hperm.mem_iff.1 hp)).1) hlt hjoint
  constructor
  · rw [warnings, if_neg hn.not_gt, hasRepeat_of_ascending hlt, if_neg Bool.false_ne_true]
  · intro p hp
    obtain ⟨hpx, hpy⟩ := hfinite p hp
    have hfirst {q r?} (h : Neighbours (sortPoints points) none p q r?) :=
      eval_first hjoins options h hpx (h.related_of_isChain hjoint).2.1
    have hown {o? o r?} (h : Neighbours (sortPoints points) o? o p r?) (hlt : joint o p < p.x) :=
      eval_own hjoins options h hpx hlt
    have hprevious {o? o r?} (h : Neighbours (sortPoints points) o? o p r?)
        (hge : ¬joint o p < p.x) :=
      eval_previous hjoins options h hpx (h.related hlt).2.1 (h.related_of_isChain hjoint).2.1 hge
    constructor
    · intro hvalue
      rcases exists_neighbours (hperm.mem_iff.2 hp) (hperm.length_eq ▸ hn) with
        ⟨q, r?, h⟩ | ⟨o?, o, r?, h⟩
      · rw [hfirst h] at hvalue
        exact .first h ((eval_halfSpan_iff hpx hpy _ _ _).1 hvalue)
      · by_cases hlt : joint o p < p.x
        · rw [hown h hlt] at hvalue
          exact .own h hlt ((eval_halfSpan_iff hpx hpy _ _ _).1 hvalue)
        · rw [hprevious h hlt] at hvalue
          exact .previous h hlt hvalue
    · intro htakes
      cases htakes with
      | first h hcoefs =>
        rw [hfirst h]
        exact (eval_halfSpan_iff hpx hpy _ _ _).2 hcoefs
      | own h hlt hcoefs =>
        rw [hown h hlt]
        exact (eval_halfSpan_iff hpx hpy _ _ _).2 hcoefs
      | previous h hge hvalue =>
        rw [hprevious h hge]
        exact hvalue

def spreadPoints : List (ControlPoint Float) :=
  [⟨-0, 1, none⟩, ⟨1, 3, none⟩, ⟨2, 2, some 1⟩]

theorem eval_controlPoint_iff_spreadPoints :
    2 ≤ spreadPoints.length ∧ (∀ p ∈ spreadPoints, p.x.isFinite ∧ p.y.isFinite) ∧
      (spreadPoints.Pairwise fun p q => ¬p.x == q.x) ∧
      ((sortPoints spreadPoints).IsChain fun p q => (joint p q).isFinite) ∧
      warnings spreadPoints = [] ∧ ∀ p ∈ spreadPoints,
        (Curve.spline ⟨true, false⟩ spreadPoints).eval p.x == p.y ↔
          TakesValue ⟨true, false⟩ (sortPoints spreadPoints) p := by
  have hn : 2 ≤ spreadPoints.length := by decide
  have hfinite : ∀ p ∈ spreadPoints, p.x.isFinite ∧ p.y.isFinite := by decide
  have hx : spreadPoints.Pairwise fun p q => ¬p.x == q.x := by decide
  have hjoint : (sortPoints spreadPoints).IsChain fun p q => (joint p q).isFinite := by
    have hsort : sortPoints spreadPoints = spreadPoints :=
      List.mergeSort_of_pairwise (by decide)
    rw [hsort]
    decide
  exact ⟨hn, hfinite, hx, hjoint, eval_controlPoint_iff ⟨true, false⟩ hn hfinite hx hjoint⟩

/-- Two neighbouring doubles with the same value and flat slopes. -/
def adjacentPoints : List (ControlPoint Float) :=
  [⟨1, 1, some 0⟩, ⟨.ofBits 0x3ff0000000000001, 1, some 0⟩]

/-- The middle of the two is rounded to the first, and the parabola around that one has a
coefficient that is not defined. -/
theorem eval_adjacentPoints :
    2 ≤ adjacentPoints.length ∧
      (∀ p ∈ adjacentPoints, p.x.isFinite ∧ p.y.isFinite ∧ ∀ d ∈ p.slope?, d.isFinite) ∧
      (adjacentPoints.Pairwise fun p q => ¬p.x == q.x) ∧
      ((sortPoints adjacentPoints).IsChain fun p q =>
        (joint p q).isFinite ∧ (secant p q).isFinite) ∧
      warnings adjacentPoints = [] ∧
      ¬(Curve.spline ⟨false, false⟩ adjacentPoints).eval 1 == 1 := by
  have hsort : sortPoints adjacentPoints = adjacentPoints :=
    List.mergeSort_of_pairwise (by decide)
  have hofList : Bands.ofList (spans adjacentPoints (slopes ⟨false, false⟩ adjacentPoints)) =
      spans adjacentPoints (slopes ⟨false, false⟩ adjacentPoints) :=
    List.mergeSort_of_pairwise (by decide)
  rw [warnings, Curve.spline, bands, hsort, hofList]
  exact ⟨by decide, by decide, by decide, by decide, by decide, by decide +kernel⟩

end Doubles

end Curves.Spline
