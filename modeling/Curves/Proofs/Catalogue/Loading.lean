import Curves.Proofs.Catalogue.Resolvable
import Curves.Proofs.Catalogue.Rounds

namespace Curves.Catalogue

open Definition (decode read)
open Relation (ReflTransGen)

/-- The outcome of loading is made up of the resolvable entries. -/
structure Completed (c : Catalogue (Curve Float)) (js : List Json) (p : Progress (Curve Float)) :
    Prop where
  /-- Nothing fails exactly if every entry is resolvable. -/
  error_none_iff : p.error? = none ↔ ∀ i < js.length, i ∈ resolvable c js
  /-- Every resolvable entry is bound to its curve, as it resolves in the outcome. -/
  bound : ∀ i ∈ resolvable c js, ∃ n d f, DefinesAt js i n d ∧
    d.resolve p.catalogue = .ok f ∧ p.catalogue.get? n = some f
  /-- There are no bindings but these and the old ones, which are kept. -/
  get?_iff : ∀ n f, p.catalogue.get? n = some f ↔ c.get? n = some f ∨
    ∃ i ∈ resolvable c js, ∃ d, DefinesAt js i n d ∧ d.resolve p.catalogue = .ok f
  /-- The error is that of the last entry that is not resolvable, tried on the outcome. -/
  error_last : ∀ i, (h : i < js.length) → i ∉ resolvable c js →
    (∀ k, i < k → k < js.length → k ∈ resolvable c js) →
    ∃ error, p.error? = some error ∧ (Loader.curves.loadOne p.catalogue js[i]).error? = some error

variable {c : Catalogue (Curve Float)} {js : List Json}

def isFree (a : Catalogue (Curve Float)) (j : Json) : Bool :=
  (Definition.name? j).all fun n => !a.contains n

theorem isFree_eq_false_iff {a : Catalogue (Curve Float)} {j : Json} :
    isFree a j = false ↔ ∃ n d, decode j = .ok (n, d) ∧ a.contains n = true := by
  unfold isFree
  constructor
  · intro h
    cases hn : Definition.name? j with
    | none => rw [hn] at h; cases h
    | some n =>
      rw [hn, Option.all_some, Bool.not_eq_false'] at h
      obtain ⟨d, hd⟩ := Definition.name?_eq_some_iff.1 hn
      exact ⟨n, d, hd, h⟩
  · rintro ⟨n, d, hd, hc⟩
    rw [Definition.name?_eq_some_iff.2 ⟨d, hd⟩, Option.all_some, hc]
    rfl

theorem isFree_insert {a : Catalogue (Curve Float)} {n : String} {f : Curve Float} {j : Json} :
    isFree (a.insert n f) j = (isFree a j && Definition.name? j != some n) := by
  unfold isFree
  cases Definition.name? j with
  | none => rfl
  | some m =>
    have hm : (a.insert n f).contains m = false ↔ a.contains m = false ∧ m ≠ n := by
      rw [← Bool.not_eq_true, contains_insert, not_or, and_comm, Bool.not_eq_true, ne_comm]
    rw [Option.all_some, Option.all_some, Bool.eq_iff_iff]
    simpa using hm

/-- How far loading has come: the catalogue has grown, and the pending entries are those whose names
are free. -/
structure Pending (c : Catalogue (Curve Float)) (js : List Json) (a : Catalogue (Curve Float))
    (left : List Json) : Prop where
  grown : ReflTransGen (Grows js) c a
  left_eq : left = js.filter (isFree a)

theorem Fresh.pending (h : Fresh c js) : Pending c js c js where
  grown := .refl
  left_eq := by
    refine (List.filter_eq_self.2 fun j hj => ?_).symm
    rw [← Bool.not_eq_false, isFree_eq_false_iff]
    rintro ⟨n, d, hd, hc⟩
    rw [h.contains hj hd] at hc
    cases hc

theorem Fresh.pending_stable (h : Fresh c js) : Progress.Stable read (Pending c js) := by
  intro a before j after e hp hr
  obtain ⟨d, hd, hf⟩ := Definition.exists_of_read hr
  have hname := Definition.name?_eq_some_iff.2 ⟨d, hd⟩
  have hj : j ∈ js.filter (isFree a) := by
    rw [← hp.left_eq]
    exact List.mem_append_right before List.mem_cons_self
  obtain ⟨hjs, hfree⟩ := List.mem_filter.1 hj
  have hn : a.contains e.name = false := by
    rw [← Bool.not_eq_true]
    intro hc
    rw [isFree_eq_false_iff.2 ⟨e.name, d, hd, hc⟩] at hfree
    cases hfree
  refine ⟨hp.grown.tail (.insert hjs hd hf hn), ?_⟩
  have hnodup : ((before ++ j :: after).filterMap Definition.name?).Nodup := by
    rw [hp.left_eq]
    exact h.nodup.sublist (List.filter_sublist.filterMap _)
  rw [List.filterMap_append, List.filterMap_cons_some hname, List.nodup_middle,
    ← List.filterMap_append, List.nodup_cons] at hnodup
  have hother : ∀ k ∈ before ++ after, (Definition.name? k != some e.name) = true := by
    intro k hk
    rw [bne_iff_ne]
    intro he
    exact hnodup.1 (List.mem_filterMap.2 ⟨k, hk, he⟩)
  have hself : (Definition.name? j != some e.name) = false := by
    rw [hname, bne_self_eq_false]
  have hfilter : js.filter (isFree (a.insert e.name e.value)) =
      (js.filter (isFree a)).filter (Definition.name? · != some e.name) := by
    rw [List.filter_filter]
    congr 1
    funext k
    rw [isFree_insert, Bool.and_comm]
  rw [hfilter, ← hp.left_eq, List.filter_append, List.filter_cons_of_neg (by simp [hself]),
    ← List.filter_append, List.filter_eq_self.2 hother]

theorem Pending.saturated {a : Catalogue (Curve Float)} {left : List Json}
    (h : Pending c js a left) (hf : ∀ j ∈ left, ∃ error, read a j = .error error) :
    Saturated js a := by
  intro j hj n d f hd hr
  cases hc : isFree a j with
  | false =>
    obtain ⟨m, d', hd', hm⟩ := isFree_eq_false_iff.1 hc
    rw [hd, Except.ok.injEq, Prod.mk.injEq] at hd'
    rw [hd'.1]
    exact hm
  | true =>
    have hl : j ∈ left := by
      rw [h.left_eq]
      exact List.mem_filter.2 ⟨hj, hc⟩
    obtain ⟨error, he⟩ := hf j hl
    rw [Definition.read_of_decode hd, hr] at he
    cases he

/-- In the end the resolvable entries are those that have found their name. -/
theorem Pending.mem_resolvable_iff {a : Catalogue (Curve Float)} {left : List Json}
    (h : Pending c js a left) (hfresh : Fresh c js) (hs : Saturated js a) {i : Nat}
    (hi : i < js.length) : i ∈ resolvable c js ↔ isFree a js[i] = false := by
  rw [isFree_eq_false_iff]
  constructor
  · intro hr
    obtain ⟨n, d, ⟨j, hj, hd⟩, hc⟩ := hs.contains_of_supplied (grown_extends h.grown) hr
    rw [List.getElem?_eq_getElem hi, Option.some.injEq] at hj
    subst j
    exact ⟨n, d, hd, hc⟩
  · rintro ⟨n, d, hd, hc⟩
    have hdef : DefinesAt js i n d := ⟨js[i], List.getElem?_eq_getElem hi, hd⟩
    rcases grown_supplied h.grown hc with hb | ⟨k, hk, d', hk'⟩
    · rw [hfresh.contains (List.getElem_mem hi) hd] at hb
      cases hb
    · rw [hfresh.index_unique hdef hk']
      exact hk

theorem Pending.bound {a : Catalogue (Curve Float)} {left : List Json}
    (h : Pending c js a left) (hfresh : Fresh c js) (hs : Saturated js a) {i : Nat}
    (hi : i ∈ resolvable c js) :
    ∃ n d f, DefinesAt js i n d ∧ d.resolve a = .ok f ∧ a.get? n = some f := by
  obtain ⟨n, d, hdef, hc⟩ := hs.contains_of_supplied (grown_extends h.grown) hi
  obtain ⟨j, hj, hd⟩ := id hdef
  have hjs := List.mem_of_getElem? hj
  obtain ⟨f, hf⟩ := contains_iff.1 hc
  rcases grown_origin h.grown hf with hb | ⟨j', hj', d', hd', hr⟩
  · rw [contains_eq_false_iff.1 (hfresh.contains hjs hd)] at hb
    cases hb
  · rw [← hfresh.definition_unique hjs hj' hd hd'] at hr
    exact ⟨n, d, f, hdef, hr, hf⟩

theorem Pending.get?_iff {a : Catalogue (Curve Float)} {left : List Json}
    (h : Pending c js a left) (hfresh : Fresh c js) (hs : Saturated js a) {n : String}
    {f : Curve Float} :
    a.get? n = some f ↔ c.get? n = some f ∨
      ∃ i ∈ resolvable c js, ∃ d, DefinesAt js i n d ∧ d.resolve a = .ok f := by
  constructor
  · intro hf
    rcases grown_origin h.grown hf with hc | ⟨j, hj, d, hd, hr⟩
    · exact .inl hc
    · obtain ⟨i, hi⟩ := exists_definesAt hj hd
      obtain ⟨j', hj', hd'⟩ := id hi
      obtain ⟨hlt, he⟩ := List.getElem?_eq_some_iff.1 hj'
      subst he
      refine .inr ⟨i, (h.mem_resolvable_iff hfresh hs hlt).2 ?_, d, hi, hr⟩
      exact isFree_eq_false_iff.2 ⟨n, d, hd', contains_iff.2 ⟨f, hf⟩⟩
  · rintro (hc | ⟨i, hi, d, hd, hr⟩)
    · exact grown_extends h.grown n f hc
    · obtain ⟨n', d', g, hd', hr', hg⟩ := h.bound hfresh hs hi
      obtain ⟨rfl, rfl⟩ := hd.unique hd'
      rw [hr, Except.ok.injEq] at hr'
      rw [hr']
      exact hg

theorem Pending.left_eq_nil_iff {a : Catalogue (Curve Float)} {left : List Json}
    (h : Pending c js a left) (hfresh : Fresh c js) (hs : Saturated js a) :
    left = [] ↔ ∀ i < js.length, i ∈ resolvable c js := by
  rw [h.left_eq, List.filter_eq_nil_iff, List.forall_mem_iff_getElem]
  refine forall_congr' fun i => forall_congr' fun hi => ?_
  rw [h.mem_resolvable_iff hfresh hs hi, Bool.not_eq_true]

theorem Pending.getLast?_left {a : Catalogue (Curve Float)} {left : List Json}
    (h : Pending c js a left) (hfresh : Fresh c js) (hs : Saturated js a) {i : Nat}
    (hi : i < js.length) (hr : i ∉ resolvable c js)
    (hlater : ∀ k, i < k → k < js.length → k ∈ resolvable c js) : left.getLast? = some js[i] := by
  have hsplit : js.filter (isFree a) =
      (js.take i).filter (isFree a) ++ (js[i] :: js.drop (i + 1)).filter (isFree a) := by
    rw [← List.filter_append, List.getElem_cons_drop, List.take_append_drop]
  have hfree : isFree a js[i] = true := by
    rw [← Bool.not_eq_false, ← h.mem_resolvable_iff hfresh hs hi]
    exact hr
  have hdrop : (js.drop (i + 1)).filter (isFree a) = [] := by
    rw [List.filter_eq_nil_iff]
    intro j hj
    obtain ⟨k, hk, he⟩ := List.mem_drop_iff_getElem.1 hj
    rw [← he, Bool.not_eq_true, ← h.mem_resolvable_iff hfresh hs]
    exact hlater _ (by omega) (by omega)
  rw [h.left_eq, hsplit, List.filter_cons_of_pos hfree, hdrop,
    List.getLast?_append, List.getLast?_singleton, Option.some_or]

theorem Fresh.loadAll_settled (h : Fresh c js) :
    ∃ left, Pending c js (Loader.curves.loadAll c js).catalogue left ∧
      Progress.Settled read (Loader.curves.loadAll c js) left :=
  Progress.readAnyOrder_settled h.pending_stable (.start c) js h.pending

theorem Fresh.loadAll_completed (h : Fresh c js) :
    Completed c js (Loader.curves.loadAll c js) := by
  obtain ⟨left, hp, hs⟩ := h.loadAll_settled
  have hsat := hp.saturated hs.fails
  refine ⟨?_, fun i hi => hp.bound h hsat hi, fun n f => hp.get?_iff h hsat, ?_⟩
  · rw [← hp.left_eq_nil_iff h hsat, hs.error_none_iff]
  · intro i hi hr hlater
    have hl := hp.getLast?_left h hsat hi hr hlater
    obtain ⟨error, he⟩ := hs.fails _ (List.mem_of_getLast? hl)
    have herr := Progress.errorAt_of_error he
    refine ⟨error, ?_, herr⟩
    rw [hs.error, hl, Option.bind_some, herr]

/-- Loading entries under names of their own binds exactly the resolvable ones, and the arrangement
of the entries makes no difference to the catalogue. -/
theorem loadAll_resolvable (c : Catalogue (Curve Float)) (js : List Json) (h : Fresh c js) :
    Completed c js (Loader.curves.loadAll c js) ∧
      ∀ js', js'.Perm js →
        (Loader.curves.loadAll c js').catalogue = (Loader.curves.loadAll c js).catalogue := by
  refine ⟨h.loadAll_completed, fun js' hperm => ?_⟩
  obtain ⟨left, hp, hs⟩ := h.loadAll_settled
  obtain ⟨left', hp', hs'⟩ := (h.perm hperm).loadAll_settled
  have hgrown := grown_of_mem hp'.grown fun j hj => hperm.mem_iff.1 hj
  have hsat' : Saturated js (Loader.curves.loadAll c js').catalogue :=
    fun j hj => hp'.saturated hs'.fails j (hperm.mem_iff.2 hj)
  exact Saturated.unique h hgrown hsat' hp.grown (hp.saturated hs.fails)

/-- One entry comes before the entry that it refers to, and one refers to a name that nothing has. -/
def forwardEntries : List Json :=
  [.object [("function_type", .text "Affine"), ("inner", .text "line"), ("name", .text "wrapped")],
    .object [("function_type", .text "Affine"), ("inner", .text "missing"), ("name", .text "lost")],
    .object [("coefficients", .array []), ("function_type", .text "Polynomial"),
      ("name", .text "line")]]

theorem loadAll_forwardEntries :
    Fresh .empty forwardEntries ∧
      Completed .empty forwardEntries (Loader.curves.loadAll .empty forwardEntries) ∧
      ∀ js', js'.Perm forwardEntries → (Loader.curves.loadAll .empty js').catalogue =
        (Loader.curves.loadAll .empty forwardEntries).catalogue := by
  have hnames : forwardEntries.filterMap Definition.name? = ["wrapped", "lost", "line"] := by
    rfl
  have h : Fresh .empty forwardEntries := by
    constructor
    · rw [hnames]
      decide
    · intro n hn
      exact Std.ExtTreeMap.contains_empty
  exact ⟨h, loadAll_resolvable .empty forwardEntries h⟩

end Curves.Catalogue
