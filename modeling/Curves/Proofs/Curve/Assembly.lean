import Mathlib.Data.List.Sort
import Mathlib.Logic.Relation
import Curves.Proofs.Curve.Integral
import Curves.Proofs.Order

namespace Curves

universe u v

open Scalar

namespace Bands

variable {α : Type u} {β γ : Type v} [Scalar α]

def Ascending (bs : List (Band α β)) : Prop :=
  bs.Pairwise (·.startsBefore ·)

theorem ascending_iff_ranges {bs : List (Band α β)} :
    Ascending bs ↔ (ranges bs).Pairwise fun r s => totalLE r.1 s.1 := by
  rw [ranges, List.pairwise_map]
  rfl

theorem push_cons (c : Band α β) (bs : Bands α β) (b : Band α β) :
    push (c :: bs) b = if c.startsBefore b then c :: push bs b else b :: c :: bs := by
  rw [push, List.takeWhile_cons, List.dropWhile_cons]
  cases c.startsBefore b <;> rfl

/-- A place for a band: no band before it starts later, and all the others do. -/
structure IsPlace (bs : Bands α β) (b : Band α β) (i : Nat) : Prop where
  le_length : i ≤ bs.length
  before : ∀ c ∈ bs.take i, c.startsBefore b
  after : ∀ c ∈ bs.drop i, ¬c.startsBefore b

section Place

variable {bs : Bands α β} {b c : Band α β} {i k : Nat}

theorem isPlace_zero_iff : IsPlace bs b 0 ↔ ∀ c ∈ bs, ¬c.startsBefore b :=
  ⟨fun h => h.after, fun h => ⟨Nat.zero_le _, fun _ hc => absurd hc List.not_mem_nil, h⟩⟩

theorem isPlace_cons_succ_iff :
    IsPlace (c :: bs) b (i + 1) ↔ c.startsBefore b ∧ IsPlace bs b i := by
  constructor
  · rintro ⟨hlen, hbefore, hafter⟩
    rw [List.take_succ_cons, List.forall_mem_cons] at hbefore
    exact ⟨hbefore.1, Nat.le_of_succ_le_succ hlen, hbefore.2, hafter⟩
  · rintro ⟨hc, hlen, hbefore, hafter⟩
    exact ⟨Nat.succ_le_succ hlen, List.forall_mem_cons.2 ⟨hc, hbefore⟩, hafter⟩

theorem IsPlace.push_eq (h : IsPlace bs b i) : push bs b = bs.insertIdx i b := by
  induction bs generalizing i with
  | nil =>
    obtain rfl := Nat.le_zero.1 h.le_length
    rfl
  | cons c bs ih =>
    cases i with
    | zero =>
      have hc := isPlace_zero_iff.1 h c List.mem_cons_self
      rw [push_cons, if_neg hc, List.insertIdx_zero]
    | succ i =>
      obtain ⟨hc, h⟩ := isPlace_cons_succ_iff.1 h
      rw [push_cons, if_pos hc, List.insertIdx_succ_cons, ih h]

theorem IsPlace.unique (h : IsPlace bs b i) (h' : IsPlace bs b k) : k = i := by
  induction bs generalizing i k with
  | nil => exact (Nat.le_zero.1 h'.le_length).trans (Nat.le_zero.1 h.le_length).symm
  | cons c bs ih =>
    cases i with
    | zero =>
      cases k with
      | zero => rfl
      | succ k =>
        have hc := (isPlace_cons_succ_iff.1 h').1
        exact absurd hc (isPlace_zero_iff.1 h c List.mem_cons_self)
    | succ i =>
      obtain ⟨hc, h⟩ := isPlace_cons_succ_iff.1 h
      cases k with
      | zero => exact absurd hc (isPlace_zero_iff.1 h' c List.mem_cons_self)
      | succ k => rw [ih h (isPlace_cons_succ_iff.1 h').2]

end Place

variable [LawfulOrder α]

theorem startsBefore_trans (b c d : Band α β) (hbc : b.startsBefore c) (hcd : c.startsBefore d) :
    b.startsBefore d :=
  LawfulOrder.trans b.min c.min d.min hbc hcd

theorem startsBefore_total (b c : Band α β) : b.startsBefore c ∨ c.startsBefore b :=
  LawfulOrder.total b.min c.min

theorem ascending_ofList (bs : List (Band α β)) : Ascending (ofList bs) :=
  pairwise_mergeSort_by Band.min bs

theorem Ascending.exists_isPlace {bs : Bands α β} (h : Ascending bs) (b : Band α β) :
    ∃ i, IsPlace bs b i := by
  induction bs with
  | nil => exact ⟨0, isPlace_zero_iff.2 (List.forall_mem_nil _)⟩
  | cons c bs ih =>
    obtain ⟨hc, hbs⟩ := List.pairwise_cons.1 h
    by_cases hcb : c.startsBefore b
    · obtain ⟨i, hi⟩ := ih hbs
      exact ⟨i + 1, isPlace_cons_succ_iff.2 ⟨hcb, hi⟩⟩
    · refine ⟨0, isPlace_zero_iff.2 (List.forall_mem_cons.2 ⟨hcb, ?_⟩)⟩
      intro d hd hdb
      exact hcb (startsBefore_trans c d b (hc d hd) hdb)

theorem ofList_cons (b : Band α β) (bs : List (Band α β)) :
    ofList (b :: bs) = (ofList bs).orderedInsert (·.startsBefore ·) b := by
  obtain ⟨before, after, hcons, hsort, hbefore⟩ :=
    List.mergeSort_cons startsBefore_trans (fun c d => totalLE_or_totalLE c.min d.min) b bs
  have hsorted := ascending_ofList (b :: bs)
  rw [ofList, hcons] at hsorted
  rw [ofList, ofList, hcons, hsort]
  clear hcons hsort
  induction before with
  | nil =>
    cases after with
    | nil => rfl
    | cons c after =>
      have hc := (List.pairwise_cons.1 hsorted).1 c List.mem_cons_self
      rw [List.nil_append, List.nil_append, List.orderedInsert_cons, if_pos hc]
  | cons c before ih =>
    obtain ⟨hc, hbs⟩ := List.forall_mem_cons.1 hbefore
    rw [Bool.not_eq_true', ← Bool.not_eq_true] at hc
    rw [List.cons_append, List.cons_append, List.orderedInsert_cons, if_neg hc,
      ih hbs (List.pairwise_cons.1 hsorted).2]

theorem push_orderedInsert (bs : Bands α β) (a b : Band α β) :
    push (bs.orderedInsert (·.startsBefore ·) a) b =
      (push bs b).orderedInsert (·.startsBefore ·) a := by
  induction bs with
  | nil =>
    rw [List.orderedInsert_nil, push_cons]
    rfl
  | cons c bs ih =>
    rw [List.orderedInsert_cons, push_cons c]
    by_cases hac : a.startsBefore c
    · rw [if_pos hac, push_cons a, push_cons c]
      by_cases hcb : c.startsBefore b
      · have hab := startsBefore_trans a c b hac hcb
        rw [if_pos hcb, if_pos hab, List.orderedInsert_cons, if_pos hac]
      · rw [if_neg hcb, List.orderedInsert_cons, List.orderedInsert_cons, if_pos hac]
    · rw [if_neg hac, push_cons]
      by_cases hcb : c.startsBefore b
      · rw [if_pos hcb, if_pos hcb, ih, List.orderedInsert_cons, if_neg hac]
      -- `b` goes before `c`, which `a` comes after, so `a` passes both of them
      · have hbc := (startsBefore_total b c).resolve_right hcb
        have hab : ¬a.startsBefore b := fun hab => hac (startsBefore_trans a b c hab hbc)
        rw [if_neg hcb, if_neg hcb, List.orderedInsert_cons, if_neg hab, List.orderedInsert_cons,
          if_neg hac]

theorem push_ofList (bs : List (Band α β)) (b : Band α β) :
    push (ofList bs) b = ofList (bs ++ [b]) := by
  induction bs with
  | nil =>
    rw [List.nil_append, ofList, ofList, List.mergeSort_nil, List.mergeSort_singleton]
    rfl
  | cons a bs ih => rw [List.cons_append, ofList_cons, ofList_cons, push_orderedInsert, ih]

theorem foldl_push_ofList (bs ps : List (Band α β)) :
    ps.foldl push (ofList bs) = ofList (bs ++ ps) := by
  induction ps generalizing bs with
  | nil => rw [List.foldl_nil, List.append_nil]
  | cons p ps ih => rw [List.foldl_cons, push_ofList, ih, List.append_assoc, List.singleton_append]

theorem Ascending.push {bs : Bands α β} (h : Ascending bs) (b : Band α β) :
    Ascending (bs.push b) := by
  have hsorted : ofList bs = bs := List.mergeSort_of_pairwise h
  rw [← hsorted, push_ofList]
  exact ascending_ofList (bs ++ [b])

end Bands

namespace Curve

variable {α : Type u} [Scalar α] {f g : Curve α}

/-- The curves that an operation on a curve made of bands can lead to. -/
inductive Step : Curve α → Curve α → Prop
  | push (bands : List (Band α (Curve α))) (b : Band α (Curve α)) :
      Step (piecewise bands) (piecewise (Bands.push bands b))
  | raise (f : Curve α) (v : α) : Step f (f.raise v)
  | lower (f : Curve α) (v : α) : Step f (f.lower v)
  | derivative (f : Curve α) : Step f f.derivative
  | antiderivative {f g : Curve α} {k : α} (h : f.antiderivative k = .ok g) : Step f g
  | copy (f : Curve α) : Step f f

def IsAscending (f : Curve α) : Prop :=
  ∃ bands, f = piecewise bands ∧ Bands.Ascending bands

theorem isAscending_of_ranges {bands gs : List (Band α (Curve α))} (h : Bands.Ascending bands)
    (hr : Bands.ranges gs = Bands.ranges bands) : (piecewise gs).IsAscending := by
  refine ⟨gs, rfl, ?_⟩
  rw [Bands.ascending_iff_ranges, hr]
  exact Bands.ascending_iff_ranges.1 h

theorem Step.isAscending [LawfulOrder α] (h : Step f g) (hf : f.IsAscending) : g.IsAscending := by
  obtain ⟨bands, rfl, hb⟩ := hf
  cases h with
  | push _ b => exact ⟨_, rfl, hb.push b⟩
  | raise _ v => exact isAscending_of_ranges hb (ranges_raiseBands bands v)
  | lower _ v => exact isAscending_of_ranges hb (ranges_raiseBands bands (-v))
  | derivative => exact isAscending_of_ranges hb (ranges_derivativeBands bands)
  | antiderivative h =>
    obtain ⟨gs, rfl, hr⟩ := exists_ranges_antiderivative h
    exact isAscending_of_ranges hb hr
  | copy => exact ⟨bands, rfl, hb⟩

theorem isAscending_of_steps [LawfulOrder α] (hf : f.IsAscending)
    (h : Relation.ReflTransGen Step f g) : g.IsAscending := by
  induction h with
  | refl => exact hf
  | tail _ hstep ih => exact hstep.isAscending ih

/-- Bands pushed one by one are those that are put in order all at once. Whatever is made of bands,
or of none, by any operations has them in ascending order, so that there is just one place where the
next band can go. -/
theorem push_eq_ofList_and_ascending [LawfulOrder α] :
    (∀ bs ps : List (Band α (Curve α)), ps.foldl Bands.push (Bands.ofList bs) =
      Bands.ofList (bs ++ ps)) ∧
    (∀ f g : Curve α, (f = piecewise [] ∨ ∃ bs, f = ofBands bs) →
      Relation.ReflTransGen Step f g → g.IsAscending) ∧
    ∀ (bs : Bands α (Curve α)) (b : Band α (Curve α)), Bands.Ascending bs →
      ∃ i, (∀ k, Bands.IsPlace bs b k ↔ k = i) ∧ Bands.push bs b = bs.insertIdx i b := by
  refine ⟨Bands.foldl_push_ofList, ?_, ?_⟩
  · intro f g hf h
    apply isAscending_of_steps _ h
    rcases hf with rfl | ⟨bs, rfl⟩
    · exact ⟨[], rfl, .nil⟩
    · exact ⟨_, rfl, Bands.ascending_ofList bs⟩
  · intro bs b hb
    obtain ⟨i, hi⟩ := hb.exists_isPlace b
    refine ⟨i, ?_, hi.push_eq⟩
    intro k
    constructor
    · exact hi.unique
    · rintro rfl
      exact hi

section Zeros

def bandFrom (lo : Float) : Band Float (Curve Float) :=
  ⟨lo, 1, .polynomial ⟨[1], 0⟩⟩

/-- Two bands pushed one after the other, lowered and differentiated. -/
def assembled : Curve Float :=
  ((piecewise (Bands.push (Bands.push [] (bandFrom undefined)) (bandFrom 0))).lower 1).derivative

theorem steps_assembled : Relation.ReflTransGen Step (piecewise []) assembled :=
  .tail (.tail (.tail (.single (.push [] _)) (.push _ _)) (.lower _ 1)) (.derivative _)

theorem push_eq_ofList_and_ascending_zeros :
    Bands.ofList [bandFrom undefined, bandFrom 0, bandFrom (-0)] =
        [bandFrom (-0), bandFrom 0, bandFrom undefined] ∧
      Relation.ReflTransGen Step (piecewise []) assembled ∧ assembled.IsAscending := by
  obtain ⟨hpush, hascending, -⟩ := push_eq_ofList_and_ascending (α := Float)
  refine ⟨?_, steps_assembled, hascending _ _ (.inl rfl) steps_assembled⟩
  have h := hpush [] [bandFrom undefined, bandFrom 0, bandFrom (-0)]
  rw [Bands.ofList, List.mergeSort_nil, List.nil_append] at h
  rw [← h]
  rfl

end Zeros

end Curve
end Curves
