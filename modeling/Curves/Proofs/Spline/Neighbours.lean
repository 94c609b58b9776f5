import Curves.Proofs.Spline.Level

namespace Curves.Spline

universe u

open Exact (value)
open Curve (piecewise)

section Lists

variable {β : Type u} {γ : Type u} {l : List β} {o? r? : Option β} {p q : β}

/-- In the list `p` is followed by `q`, with `o?` next before them and `r?` next after them. -/
def Neighbours (l : List β) (o? : Option β) (p q : β) (r? : Option β) : Prop :=
  ∃ before after, l = before ++ p :: q :: after ∧ before.getLast? = o? ∧ after.head? = r?

theorem neighbours_append (before after : List β) (p q : β) :
    Neighbours (before ++ p :: q :: after) before.getLast? p q after.head? :=
  ⟨before, after, rfl, rfl, rfl⟩

theorem neighbours_append_cons (before after : List β) (o p q : β) :
    Neighbours (before ++ o :: p :: q :: after) (some o) p q after.head? := by
  refine ⟨before ++ [o], after, ?_, List.getLast?_concat, rfl⟩
  rw [List.append_assoc, List.singleton_append]

theorem exists_neighbours (hp : p ∈ l) (hn : 2 ≤ l.length) :
    (∃ q r?, Neighbours l none p q r?) ∨ ∃ o? o r?, Neighbours l o? o p r? := by
  obtain ⟨before, after, rfl⟩ := List.append_of_mem hp
  rcases List.eq_nil_or_concat before with rfl | ⟨before, o, rfl⟩
  · cases after with
    | nil => exact absurd hn (Nat.lt_irrefl 1)
    | cons q after => exact .inl ⟨q, _, neighbours_append [] after p q⟩
  · right
    rw [List.concat_append]
    exact ⟨_, o, _, neighbours_append before after o p⟩

theorem Neighbours.reverse (h : Neighbours l o? p q r?) : Neighbours l.reverse r? q p o? := by
  obtain ⟨before, after, rfl, rfl, rfl⟩ := h
  refine ⟨after.reverse, before.reverse, ?_, List.getLast?_reverse, List.head?_reverse⟩
  simp

theorem Neighbours.map (g : β → γ) (h : Neighbours l o? p q r?) :
    Neighbours (l.map g) (o?.map g) (g p) (g q) (r?.map g) := by
  obtain ⟨before, after, rfl, rfl, rfl⟩ := h
  refine ⟨before.map g, after.map g, ?_, List.getLast?_map, List.head?_map⟩
  rw [List.map_append, List.map_cons, List.map_cons]

theorem Neighbours.exists_of_map {g : β → γ} {o? r? : Option γ} {p q : γ}
    (h : Neighbours (l.map g) o? p q r?) :
    ∃ o₀? p₀ q₀ r₀?, Neighbours l o₀? p₀ q₀ r₀? ∧ o? = o₀?.map g ∧ p = g p₀ ∧ q = g q₀ ∧
      r? = r₀?.map g := by
  obtain ⟨before, after, hl, rfl, rfl⟩ := h
  obtain ⟨before₀, rest, rfl, rfl, hrest⟩ := List.map_eq_append_iff.1 hl
  obtain ⟨p₀, rest, rfl, rfl, hafter⟩ := List.map_eq_cons_iff.1 hrest
  obtain ⟨q₀, after₀, rfl, rfl, rfl⟩ := List.map_eq_cons_iff.1 hafter
  exact ⟨_, p₀, q₀, _, ⟨before₀, after₀, rfl, rfl, rfl⟩, List.getLast?_map, rfl, rfl,
    List.head?_map⟩

theorem Neighbours.length_eq_two (h : Neighbours l none p q none) : l.length = 2 := by
  obtain ⟨before, after, rfl, hbefore, hafter⟩ := h
  rw [List.getLast?_eq_none_iff.1 hbefore, List.head?_eq_none_iff.1 hafter]
  rfl

theorem Neighbours.related_of_isChain {r : β → β → Prop} (h : Neighbours l o? p q r?)
    (hl : l.IsChain r) : (∀ o ∈ o?, r o p) ∧ r p q ∧ ∀ s ∈ r?, r q s := by
  obtain ⟨before, after, rfl, rfl, rfl⟩ := h
  obtain ⟨-, hrest, hbefore⟩ := List.isChain_append.1 hl
  obtain ⟨hp, hq⟩ := List.isChain_cons.1 hrest
  exact ⟨fun o ho => hbefore o ho p rfl, hp q rfl, (List.isChain_cons.1 hq).1⟩

theorem Neighbours.related {r : β → β → Prop} (h : Neighbours l o? p q r?) (hl : l.Pairwise r) :
    (∀ o ∈ o?, r o p) ∧ r p q ∧ ∀ s ∈ r?, r q s :=
  h.related_of_isChain hl.isChain

/-- Neighbours in one direction or the other. -/
def Beside (l : List β) (o? : Option β) (p q : β) (r? : Option β) : Prop :=
  Neighbours l o? p q r? ∨ Neighbours l r? q p o?

theorem Beside.length_eq_two (h : Beside l none p q none) : l.length = 2 :=
  h.elim Neighbours.length_eq_two Neighbours.length_eq_two

theorem beside_reverse_iff : Beside l.reverse o? p q r? ↔ Beside l o? p q r? := by
  have hreverse {l : List β} (h : Beside l o? p q r?) : Beside l.reverse o? p q r? :=
    h.symm.imp Neighbours.reverse Neighbours.reverse
  constructor
  · intro h
    rw [← l.reverse_reverse]
    exact hreverse h
  · exact hreverse

theorem Beside.map (g : β → γ) (h : Beside l o? p q r?) :
    Beside (l.map g) (o?.map g) (g p) (g q) (r?.map g) :=
  h.imp (Neighbours.map g) (Neighbours.map g)

theorem Beside.exists_of_map {g : β → γ} {o? r? : Option γ} {p q : γ}
    (h : Beside (l.map g) o? p q r?) :
    ∃ o₀? p₀ q₀ r₀?, Beside l o₀? p₀ q₀ r₀? ∧ o? = o₀?.map g ∧ p = g p₀ ∧ q = g q₀ ∧
      r? = r₀?.map g := by
  rcases h with h | h
  · obtain ⟨o₀?, p₀, q₀, r₀?, h, hmap⟩ := h.exists_of_map
    exact ⟨o₀?, p₀, q₀, r₀?, .inl h, hmap⟩
  · obtain ⟨r₀?, q₀, p₀, o₀?, h, hr, hq, hp, ho⟩ := h.exists_of_map
    exact ⟨o₀?, p₀, q₀, r₀?, .inr h, ho, hp, hq, hr⟩

end Lists

section Scalars

variable {α : Type u}

/-- The slope at `p` is the prescribed one, or else what `inner` makes of the points on both
sides. -/
def slopeBetween (inner : ControlPoint α → ControlPoint α → ControlPoint α → α)
    (o? : Option (ControlPoint α)) (p : ControlPoint α) (q? : Option (ControlPoint α)) : Option α :=
  p.slope?.or (o?.bind fun o => q?.map fun q => inner o p q)

theorem slopeBetween_comm {inner : ControlPoint α → ControlPoint α → ControlPoint α → α}
    (h : ∀ o p q, inner o p q = inner q p o) (o? : Option (ControlPoint α)) (p : ControlPoint α)
    (q? : Option (ControlPoint α)) : slopeBetween inner o? p q? = slopeBetween inner q? p o? := by
  rw [slopeBetween, slopeBetween]
  cases o? with
  | none => cases q? <;> rfl
  | some o =>
    cases q? with
    | none => rfl
    | some q => exact congrArg (fun d => p.slope?.or (some d)) (h o p q)

variable [Scalar α]

theorem slopesAfter_cons (options : Options) (p q : ControlPoint α)
    (points : List (ControlPoint α)) :
    slopesAfter options p (q :: points) =
      slopeBetween (innerSlope options) (some p) q points.head? ::
        slopesAfter options q points := by
  cases points with
  | nil => exact congrArg (· :: []) (Option.or_none).symm
  | cons r points =>
    rw [slopesAfter, slopeBetween]
    cases q.slope? <;> rfl

theorem getLast?_cons_or {β : Type u} (c : β) (l : List β) (prev? : Option β) :
    (c :: l).getLast?.or prev? = l.getLast?.or (some c) := by
  rw [List.getLast?_cons]
  cases l.getLast? <;> rfl

/-- The spans of neighbours make up all spans, also of points that follow `prev?`. -/
theorem mem_spans_from_iff {options : Options} {prev? : Option (ControlPoint α)}
    {p : ControlPoint α} {points : List (ControlPoint α)} {b : Band α (Curve α)} :
    b ∈ spans (p :: points)
        (slopeBetween (innerSlope options) prev? p points.head? :: slopesAfter options p points) ↔
      ∃ before q r after, p :: points = before ++ q :: r :: after ∧
        b ∈ span q r (slopeBetween (innerSlope options) (before.getLast?.or prev?) q (some r))
          (slopeBetween (innerSlope options) (some q) r after.head?) := by
  induction points generalizing prev? p with
  | nil =>
    constructor
    · intro h
      cases h
    · rintro ⟨before, q, r, after, h, -⟩
      have hlen := congrArg List.length h
      simp at hlen
      omega
  | cons q points ih =>
    rw [slopesAfter_cons, spans, List.mem_append, ih]
    constructor
    · rintro (hb | ⟨before, r, s, after, hsplit, hb⟩)
      · exact ⟨[], p, q, points, rfl, hb⟩
      · refine ⟨p :: before, r, s, after, congrArg (p :: ·) hsplit, ?_⟩
        rwa [getLast?_cons_or]
    · rintro ⟨before, r, s, after, hsplit, hb⟩
      cases before with
      | nil =>
        cases hsplit
        exact .inl hb
      | cons c before =>
        rw [List.cons_append, List.cons.injEq] at hsplit
        obtain ⟨rfl, hsplit⟩ := hsplit
        rw [getLast?_cons_or] at hb
        exact .inr ⟨before, r, s, after, hsplit, hb⟩

theorem mem_spans_iff {options : Options} {points : List (ControlPoint α)}
    {b : Band α (Curve α)} :
    b ∈ spans points (slopes options points) ↔
      ∃ o? p q r?, Neighbours points o? p q r? ∧
        b ∈ span p q (slopeBetween (innerSlope options) o? p (some q))
          (slopeBetween (innerSlope options) (some p) q r?) := by
  cases points with
  | nil =>
    constructor
    · intro h
      cases h
    · rintro ⟨-, p, q, -, ⟨before, after, h, -⟩, -⟩
      exact absurd h.symm (List.append_ne_nil_of_right_ne_nil _ (List.cons_ne_nil _ _))
  | cons p points =>
    have hfirst : slopes options (p :: points) =
        slopeBetween (innerSlope options) none p points.head? :: slopesAfter options p points :=
      congrArg (· :: _) Option.or_none.symm
    rw [hfirst, mem_spans_from_iff]
    constructor
    · rintro ⟨before, q, r, after, hsplit, hb⟩
      rw [Option.or_none] at hb
      exact ⟨_, q, r, _, ⟨before, after, hsplit, rfl, rfl⟩, hb⟩
    · rintro ⟨-, q, r, -, ⟨before, after, hsplit, rfl, rfl⟩, hb⟩
      rw [← Option.or_none (o := before.getLast?)] at hb
      exact ⟨before, q, r, after, hsplit, hb⟩

end Scalars

variable {K : Type u} [Field K] [LinearOrder K]

variable [Elementary K]

/-- The slopes of the spline on the half of a span that lies at `p`, at `p` and at the middle. -/
def slopesTowards (options : Options) (o? : Option (ControlPoint K)) (p q : ControlPoint K)
    (r? : Option (ControlPoint K)) : K × K :=
  halfSlopes (rise p q) (slopeBetween (innerRise options) o? p (some q))
    (slopeBetween (innerRise options) (some p) q r?)

/-- The spline on the half of a span that lies at `p`. -/
def towards (options : Options) (o? : Option (ControlPoint K)) (p q : ControlPoint K)
    (r? : Option (ControlPoint K)) : Curve (Exact K) :=
  half p (slopesTowards options o? p q r?).1 (middle p q) (slopesTowards options o? p q r?).2

/-- The band of the half that lies at `p`, on whichever side. -/
def halfBand (options : Options) (o? : Option (ControlPoint K)) (p q : ControlPoint K)
    (r? : Option (ControlPoint K)) : Band (Exact K) (Curve (Exact K)) :=
  ⟨value (min p.x (middle p q)), value (max p.x (middle p q)), towards options o? p q r?⟩

variable [IsStrictOrderedRing K] {options : Options} {sorted points : List (ControlPoint K)}
  {o p q : ControlPoint K} {o? r? : Option (ControlPoint K)}

theorem slopeBetween_value (options : Options) (o? q? : Option (ControlPoint K))
    (ho : ∀ o ∈ o?, o.x < p.x) (hq : ∀ q ∈ q?, p.x < q.x) :
    slopeBetween (innerSlope options) (o?.map (ControlPoint.map value)) (p.map value)
        (q?.map (ControlPoint.map value)) =
      (slopeBetween (innerRise options) o? p q?).map value := by
  rw [slopeBetween, slopeBetween, Option.map_or]
  apply congrArg
  cases o? with
  | none => rfl
  | some o =>
    cases q? with
    | none => rfl
    | some q => exact congrArg some (innerSlope_eq options (ho o rfl) (hq q rfl))

/-- Read from right to left, a span is made by the same rules. -/
theorem halfBand_reverse (options : Options) (o? : Option (ControlPoint K)) (h : p.x < q.x)
    (r? : Option (ControlPoint K)) :
    halfBand options r? q p o? =
      ⟨value (middle p q), value q.x,
        half q (halfSlopes (rise p q) (slopeBetween (innerRise options) (some p) q r?)
            (slopeBetween (innerRise options) o? p (some q))).1 (middle p q)
          (halfSlopes (rise p q) (slopeBetween (innerRise options) (some p) q r?)
            (slopeBetween (innerRise options) o? p (some q))).2⟩ := by
  have hcomm := slopeBetween_comm (innerRise_comm (K := K) options)
  rw [halfBand, towards, slopesTowards, rise_comm q, middle_comm q, hcomm r?, hcomm (some q),
    min_eq_right (middle_lt_right h).le, max_eq_left (middle_lt_right h).le]

theorem span_eq_halfBands (options : Options) (ho : ∀ o ∈ o?, o.x < p.x) (hpq : p.x < q.x)
    (hr : ∀ r ∈ r?, q.x < r.x) :
    span (p.map value) (q.map value)
        (slopeBetween (innerSlope options) (o?.map (ControlPoint.map value)) (p.map value)
          (some (q.map value)))
        (slopeBetween (innerSlope options) (some (p.map value)) (q.map value)
          (r?.map (ControlPoint.map value))) =
      [halfBand options o? p q r?, halfBand options r? q p o?] := by
  have hp : slopeBetween (innerSlope options) (o?.map (ControlPoint.map value)) (p.map value)
      (some (q.map value)) = (slopeBetween (innerRise options) o? p (some q)).map value :=
    slopeBetween_value options o? (some q) ho fun _ h => Option.some.inj h ▸ hpq
  have hq : slopeBetween (innerSlope options) (some (p.map value)) (q.map value)
      (r?.map (ControlPoint.map value)) =
        (slopeBetween (innerRise options) (some p) q r?).map value :=
    slopeBetween_value options (some p) r? (fun _ h => Option.some.inj h ▸ hpq) hr
  rw [hp, hq, span_eq hpq, halfBand_reverse options o? hpq, halfBand,
    min_eq_left (left_lt_middle hpq).le, max_eq_right (left_lt_middle hpq).le]
  rfl

/-- The control points in ascending order. -/
structure Arranges (sorted points : List (ControlPoint K)) : Prop where
  perm : sorted.Perm points
  ascending : sorted.Pairwise fun p q => p.x < q.x

omit [Field K] [Elementary K] [IsStrictOrderedRing K] in
theorem Arranges.nodup (h : Arranges sorted points) : (points.map (·.x)).Nodup := by
  apply (h.perm.map _).nodup_iff.1
  exact List.pairwise_map.2 (h.ascending.imp ne_of_lt)

omit [IsStrictOrderedRing K] in
theorem Arranges.sortPoints_eq (h : Arranges sorted points) :
    sortPoints (points.map (ControlPoint.map value)) = sorted.map (ControlPoint.map value) := by
  obtain ⟨sorted', hperm, hlt, hsort⟩ := sortPoints_map points h.nodup
  have heq : sorted' = sorted := by
    apply List.Perm.eq_of_pairwise _ hlt h.ascending (hperm.trans h.perm.symm)
    exact fun p q _ _ hpq hqp => absurd hqp hpq.asymm
  rw [hsort, heq]

theorem Arranges.mem_spans_iff (h : Arranges sorted points) (options : Options)
    (b : Band (Exact K) (Curve (Exact K))) :
    b ∈ spans (sorted.map (ControlPoint.map value))
        (slopes options (sorted.map (ControlPoint.map value))) ↔
      ∃ o? p q r?, Beside sorted o? p q r? ∧ b = halfBand options o? p q r? := by
  rw [Spline.mem_spans_iff]
  constructor
  · rintro ⟨_, _, _, _, hmap, hb⟩
    obtain ⟨o?, p, q, r?, hn, rfl, rfl, rfl, rfl⟩ := hmap.exists_of_map
    obtain ⟨ho, hpq, hr⟩ := hn.related h.ascending
    rw [span_eq_halfBands options ho hpq hr, List.mem_pair] at hb
    rcases hb with hb | hb
    · exact ⟨o?, p, q, r?, .inl hn, hb⟩
    · exact ⟨r?, q, p, o?, .inr hn, hb⟩
  · rintro ⟨o?, p, q, r?, hn | hn, hb⟩
    · obtain ⟨ho, hpq, hr⟩ := hn.related h.ascending
      refine ⟨_, _, _, _, hn.map _, ?_⟩
      rw [span_eq_halfBands options ho hpq hr, List.mem_pair]
      exact .inl hb
    · obtain ⟨hr, hqp, ho⟩ := hn.related h.ascending
      refine ⟨_, _, _, _, hn.map _, ?_⟩
      rw [span_eq_halfBands options hr hqp ho, List.mem_pair]
      exact .inr hb

theorem Arranges.exists_bands (h : Arranges sorted points) (options : Options) :
    ∃ lo bands, Curve.spline options (points.map (ControlPoint.map value)) = piecewise bands ∧
      Curve.Contiguous lo bands ∧
      (∀ b c, [b, c] <:+: bands → b.body.eval c.min = c.body.eval c.min) ∧
      (∀ b c, [b, c] <:+: bands → b.body.slope c.min = c.body.slope c.min) ∧
      ∀ b, b ∈ bands ↔ ∃ o? p q r?, Beside sorted o? p q r? ∧ b = halfBand options o? p q r? := by
  have hmem := h.mem_spans_iff options
  rw [Curve.spline, Spline.bands, h.sortPoints_eq]
  cases sorted with
  | nil =>
    refine ⟨0, [], congrArg piecewise List.mergeSort_nil, .nil, ?_, ?_, hmem⟩
    · exact fun b c hbc => absurd (List.infix_nil.1 hbc) (List.cons_ne_nil _ _)
    · exact fun b c hbc => absurd (List.infix_nil.1 hbc) (List.cons_ne_nil _ _)
  | cons p ps =>
    obtain ⟨s, bands, -, hspans, hthrough⟩ := exists_through options p.slope? h.ascending
    have hslopes : spans ((p :: ps).map (ControlPoint.map value))
        (slopes options ((p :: ps).map (ControlPoint.map value))) = bands := hspans
    rw [hslopes] at hmem ⊢
    refine ⟨p.x, bands, ?_, hthrough.contiguous, hthrough.eval_min, hthrough.slope_min, hmem⟩
    rw [Bands.ofList, List.mergeSort_of_pairwise hthrough.pairwise]

section Read

variable {a : K}

omit [IsStrictOrderedRing K] in
theorem contains_halfBand_iff :
    (halfBand options o? p q r?).contains (value a) ↔ a ∈ Set.uIcc p.x (middle p q) :=
  Curve.contains_iff

/-- On the half that lies at a control point, the spline is what the neighbours make of it. -/
theorem Arranges.eval_eq (h : Arranges sorted points) (options : Options)
    (hb : Beside sorted o? p q r?) (ha : a ∈ Set.uIcc p.x (middle p q)) :
    (Curve.spline options (points.map (ControlPoint.map value))).eval (value a) =
      (towards options o? p q r?).eval (value a) := by
  obtain ⟨lo, bands, hspline, hc, heval, -, hmem⟩ := h.exists_bands options
  have hband := (hmem _).2 ⟨o?, p, q, r?, hb, rfl⟩
  rw [hspline]
  exact hc.eval_eq_of_contains heval hband (contains_halfBand_iff.2 ha)

theorem Arranges.slope_eq (h : Arranges sorted points) (options : Options)
    (hb : Beside sorted o? p q r?) (ha : a ∈ Set.uIcc p.x (middle p q)) :
    (Curve.spline options (points.map (ControlPoint.map value))).slope (value a) =
      (towards options o? p q r?).slope (value a) := by
  obtain ⟨lo, bands, hspline, hc, -, hslope, hmem⟩ := h.exists_bands options
  have hband := (hmem _).2 ⟨o?, p, q, r?, hb, rfl⟩
  rw [hspline]
  exact hc.slope_eq_of_contains hslope hband (contains_halfBand_iff.2 ha)

theorem Arranges.isValue_eval_iff (h : Arranges sorted points) (options : Options)
    (x : Exact K) :
    ((Curve.spline options (points.map (ControlPoint.map value))).eval x).IsValue ↔
      ∃ a, x = value a ∧
        ∃ o? p q r?, Beside sorted o? p q r? ∧ a ∈ Set.uIcc p.x (middle p q) := by
  obtain ⟨lo, bands, hspline, hc, -, -, hmem⟩ := h.exists_bands options
  rw [hspline, Curve.isValue_eval_iff hc.isTotal]
  constructor
  · rintro ⟨b, hb, hx⟩
    obtain ⟨a, rfl⟩ := Curve.contains_isValue hx
    obtain ⟨o?, p, q, r?, hbeside, rfl⟩ := (hmem b).1 hb
    exact ⟨a, rfl, o?, p, q, r?, hbeside, contains_halfBand_iff.1 hx⟩
  · rintro ⟨a, rfl, o?, p, q, r?, hbeside, ha⟩
    exact ⟨_, (hmem _).2 ⟨o?, p, q, r?, hbeside, rfl⟩, contains_halfBand_iff.2 ha⟩

theorem Arranges.isValue_eval (h : Arranges sorted points) (options : Options)
    (hn : 2 ≤ points.length) (hp : p ∈ points) (hq : q ∈ points) (hlo : p.x ≤ a) (hhi : a ≤ q.x) :
    ((Curve.spline options (points.map (ControlPoint.map value))).eval (value a)).IsValue := by
  obtain ⟨first, rest, s, bands, hperm, -, hrest, hs, hspline, hthrough⟩ :=
    exists_sorted_through options points hn h.nodup
  rw [hspline]
  apply ((hthrough.interpolates hrest hs).domain (value a)).2
  exact ⟨a, rfl, ⟨p, hperm.mem_iff.2 hp, hlo⟩, q, hperm.mem_iff.2 hq, hhi⟩

end Read

end Curves.Spline
