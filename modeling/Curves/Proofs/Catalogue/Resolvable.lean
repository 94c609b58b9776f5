import Mathlib
import Curves.Proofs.Catalogue.Lookup

namespace Curves

open Definition (decode read)

namespace Definition

def name? (j : Json) : Option String :=
  (decode j).toOption.map Prod.fst

theorem name?_eq_some_iff {j : Json} {n : String} :
    name? j = some n ↔ ∃ d, decode j = .ok (n, d) := by
  unfold name?
  cases decode j with
  | error => simp [Except.toOption]
  | ok e =>
    obtain ⟨m, d⟩ := e
    simp [Except.toOption]

theorem eq_of_name? {js : List Json} (h : (js.filterMap name?).Nodup) {j k : Json} (hj : j ∈ js)
    (hk : k ∈ js) {n : String} (hjn : name? j = some n) (hkn : name? k = some n) : j = k := by
  have hsymm : Std.Symm fun j k => name? j = some n → name? k = some n → j = k :=
    ⟨fun _ _ h hk hj => (h hj hk).symm⟩
  have hp : js.Pairwise fun j k => name? j = some n → name? k = some n → j = k :=
    (List.pairwise_filterMap.1 h).imp fun h hj hk => (h n hj n hk rfl).elim
  exact hp.forall_of_forall (fun _ _ _ _ => rfl) hj hk hjn hkn

theorem read_of_decode {c : Catalogue (Curve Float)} {j : Json} {n : String} {d : Definition}
    (h : decode j = .ok (n, d)) :
    read c j = (d.resolve c).map fun f => ⟨n, f, d.warnings⟩ := by
  unfold read
  rw [h]
  cases hf : d.resolve c <;> simp [Except.mapError, bind, Except.bind, Except.map, hf, pure,
    Except.pure]

theorem exists_of_read {c : Catalogue (Curve Float)} {j : Json} {e : Entry (Curve Float)}
    (h : read c j = .ok e) :
    ∃ d, decode j = .ok (e.name, d) ∧ d.resolve c = .ok e.value := by
  cases hd : decode j with
  | error m =>
    unfold read at h
    rw [hd] at h
    cases h
  | ok nd =>
    obtain ⟨n, d⟩ := nd
    rw [read_of_decode hd] at h
    cases hf : d.resolve c with
    | error => rw [hf] at h; cases h
    | ok f =>
      rw [hf] at h
      cases h
      exact ⟨d, rfl, hf⟩

def constantEntry (name : String) (k : Int) : Json :=
  .object [("coefficients", .array [.number (.integer k)]), ("function_type", .text "Polynomial"),
    ("name", .text name)]

def wrapperEntry (name inner : String) : Json :=
  .object [("function_type", .text "Affine"), ("inner", .text inner), ("name", .text name)]

theorem read_constantEntry (c : Catalogue (Curve Float)) (name : String) (k : Int) :
    read c (constantEntry name k) = .ok ⟨name, .polynomial ⟨[Float.ofInt k], 0⟩, []⟩ :=
  rfl

theorem read_wrapperEntry (c : Catalogue (Curve Float)) (name inner : String) :
    read c (wrapperEntry name inner) =
      (c.get inner).map fun f => ⟨name, .affine .identity f, []⟩ := by
  have hd : decode (wrapperEntry name inner) = .ok (name, .affine inner .identity) := rfl
  rw [read_of_decode hd, resolve_affine]
  cases c.get inner <;> rfl

end Definition

namespace Catalogue

/-- The entry at a position is well formed, with this name and definition. -/
def DefinesAt (js : List Json) (i : Nat) (n : String) (d : Definition) : Prop :=
  ∃ j, js[i]? = some j ∧ decode j = .ok (n, d)

/-- The name is bound already, or belongs to an entry of the set. -/
def Supplied (c : Catalogue (Curve Float)) (js : List Json) (S : Set Nat) (n : String) : Prop :=
  c.contains n = true ∨ ∃ i ∈ S, ∃ d, DefinesAt js i n d

/-- The entries all of whose references are supplied. -/
def ready (c : Catalogue (Curve Float)) (js : List Json) : Set Nat →o Set Nat where
  toFun S := {i | ∃ n d, DefinesAt js i n d ∧ ∀ r ∈ d.references, Supplied c js S r}
  monotone' := by
    rintro S T hST i ⟨n, d, hi, hr⟩
    refine ⟨n, d, hi, fun r hd => ?_⟩
    rcases hr r hd with hc | ⟨k, hk, he⟩
    · exact .inl hc
    · exact .inr ⟨k, hST hk, he⟩

/-- The least set of entries that holds every entry whose references it supplies. -/
def resolvable (c : Catalogue (Curve Float)) (js : List Json) : Set Nat :=
  (ready c js).lfp

/-- The well-formed entries have names of their own, none of which is bound yet. -/
structure Fresh (c : Catalogue (Curve Float)) (js : List Json) : Prop where
  nodup : (js.filterMap Definition.name?).Nodup
  unbound : ∀ n ∈ js.filterMap Definition.name?, c.contains n = false

/-- One more entry is bound, under a name that was free. -/
inductive Grows (js : List Json) (c : Catalogue (Curve Float)) : Catalogue (Curve Float) → Prop
  | insert {j : Json} {n : String} {d : Definition} {f : Curve Float} (hj : j ∈ js)
      (hd : decode j = .ok (n, d)) (hf : d.resolve c = .ok f) (hn : c.contains n = false) :
      Grows js c (c.insert n f)

open Relation (ReflTransGen)

variable {c c' : Catalogue (Curve Float)} {js js' : List Json}

theorem Fresh.perm (h : Fresh c js) (hp : js'.Perm js) : Fresh c js' where
  nodup := (hp.filterMap _).nodup_iff.2 h.nodup
  unbound n hn := h.unbound n ((hp.filterMap _).mem_iff.1 hn)

theorem Fresh.contains (h : Fresh c js) {j : Json} (hj : j ∈ js) {n : String} {d : Definition}
    (hd : decode j = .ok (n, d)) : c.contains n = false :=
  h.unbound n (List.mem_filterMap.2 ⟨j, hj, Definition.name?_eq_some_iff.2 ⟨d, hd⟩⟩)

theorem Fresh.index_unique (h : Fresh c js) {i k : Nat} {n : String} {d d' : Definition}
    (hi : DefinesAt js i n d) (hk : DefinesAt js k n d') : i = k := by
  obtain ⟨j, hj, hd⟩ := hi
  obtain ⟨j', hj', hd'⟩ := hk
  have hn := Definition.name?_eq_some_iff.2 ⟨d, hd⟩
  have hn' := Definition.name?_eq_some_iff.2 ⟨d', hd'⟩
  have hp := List.pairwise_iff_getElem.1 (List.pairwise_filterMap.1 h.nodup)
  obtain ⟨hil, hie⟩ := List.getElem?_eq_some_iff.1 hj
  obtain ⟨hkl, hke⟩ := List.getElem?_eq_some_iff.1 hj'
  subst hie hke
  rcases Nat.lt_trichotomy i k with hlt | he | hgt
  · exact (hp i k hil hkl hlt n hn n hn' rfl).elim
  · exact he
  · exact (hp k i hkl hil hgt n hn' n hn rfl).elim

theorem DefinesAt.unique {i : Nat} {n n' : String} {d d' : Definition} (h : DefinesAt js i n d)
    (h' : DefinesAt js i n' d') : n = n' ∧ d = d' := by
  obtain ⟨j, hj, hd⟩ := h
  obtain ⟨j', hj', hd'⟩ := h'
  rw [hj, Option.some.injEq] at hj'
  subst j'
  rw [hd, Except.ok.injEq, Prod.mk.injEq] at hd'
  exact hd'

theorem exists_definesAt {j : Json} (hj : j ∈ js) {n : String} {d : Definition}
    (hd : decode j = .ok (n, d)) : ∃ i, DefinesAt js i n d := by
  obtain ⟨i, hi⟩ := List.getElem?_of_mem hj
  exact ⟨i, j, hi, hd⟩

theorem Fresh.definition_unique (h : Fresh c js) {j j' : Json} (hj : j ∈ js) (hj' : j' ∈ js)
    {n : String} {d d' : Definition} (hd : decode j = .ok (n, d)) (hd' : decode j' = .ok (n, d')) :
    d = d' := by
  have he := Definition.eq_of_name? h.nodup hj hj' (Definition.name?_eq_some_iff.2 ⟨d, hd⟩)
    (Definition.name?_eq_some_iff.2 ⟨d', hd'⟩)
  rw [he, hd', Except.ok.injEq, Prod.mk.injEq] at hd
  exact hd.2.symm

theorem Grows.extends (h : Grows js c c') : c.Extends c' := by
  cases h with
  | insert hj hd hf hn => exact extends_insert hn _

theorem grown_extends (h : ReflTransGen (Grows js) c c') : c.Extends c' := by
  induction h with
  | refl => exact .refl c
  | tail _ hs ih => exact ih.trans hs.extends

theorem grown_of_mem (h : ReflTransGen (Grows js) c c') (hjs : ∀ j ∈ js, j ∈ js') :
    ReflTransGen (Grows js') c c' := by
  refine ReflTransGen.mono (fun a b hs => ?_) _ _ h
  cases hs with
  | insert hj hd hf hn => exact .insert (hjs _ hj) hd hf hn

/-- A new binding comes from an entry, and is what that entry resolves to even later. -/
theorem grown_origin (h : ReflTransGen (Grows js) c c') {n : String} {f : Curve Float}
    (hf : c'.get? n = some f) :
    c.get? n = some f ∨ ∃ j ∈ js, ∃ d, decode j = .ok (n, d) ∧ d.resolve c' = .ok f := by
  induction h with
  | refl => exact .inl hf
  | tail hr hs ih =>
    have hext := hs.extends
    cases hs with
    | @insert j m d g hj hd hg hm =>
      rw [get?_insert] at hf
      split at hf
      · rename_i he
        subst m
        cases hf
        exact .inr ⟨j, hj, d, hd, Definition.resolve_mono hext hg⟩
      · rcases ih hf with hc | ⟨k, hk, d', hd', hf'⟩
        · exact .inl hc
        · exact .inr ⟨k, hk, d', hd', Definition.resolve_mono hext hf'⟩

theorem grown_supplied (h : ReflTransGen (Grows js) c c') {n : String}
    (hn : c'.contains n = true) : Supplied c js (resolvable c js) n := by
  induction h generalizing n with
  | refl => exact .inl hn
  | tail hr hs ih =>
    cases hs with
    | @insert j m d g hj hd hg hm =>
      rcases contains_insert.1 hn with he | hc
      · subst m
        obtain ⟨i, hi⟩ := exists_definesAt hj hd
        refine .inr ⟨i, ?_, d, hi⟩
        rw [resolvable, ← (ready c js).map_lfp]
        exact ⟨n, d, hi, fun r hrd => ih (Definition.resolve_ok_iff.1 ⟨g, hg⟩ r hrd)⟩
      · exact ih hc

/-- Every entry that could be read has been. -/
def Saturated (js : List Json) (c : Catalogue (Curve Float)) : Prop :=
  ∀ j ∈ js, ∀ n d f, decode j = .ok (n, d) → d.resolve c = .ok f → c.contains n = true

theorem Saturated.contains_of_supplied (hs : Saturated js c') (hc : c.Extends c') {i : Nat}
    (hi : i ∈ resolvable c js) : ∃ n d, DefinesAt js i n d ∧ c'.contains n = true := by
  have hle : resolvable c js ⊆ {i | ∃ n d, DefinesAt js i n d ∧ c'.contains n = true} := by
    refine OrderHom.lfp_le _ ?_
    rintro k ⟨n, d, hk, hr⟩
    have hok : ∀ r ∈ d.references, c'.contains r = true := by
      intro r hrd
      rcases hr r hrd with hb | ⟨l, ⟨m, e, hl, hm⟩, d', hl'⟩
      · exact hc.contains hb
      · rw [← (hl.unique hl').1]
        exact hm
    obtain ⟨f, hf⟩ := Definition.resolve_ok_iff.2 hok
    obtain ⟨j, hj, hd⟩ := id hk
    exact ⟨n, d, hk, hs j (List.mem_of_getElem? hj) n d f hd hf⟩
  exact hle hi

/-- What is grown is part of whatever is grown and saturated. -/
theorem Saturated.extends_grown (hfresh : Fresh c js) {a b : Catalogue (Curve Float)}
    (ha : ReflTransGen (Grows js) c a) (hb : ReflTransGen (Grows js) c b) (hs : Saturated js b) :
    a.Extends b := by
  induction ha with
  | refl => exact grown_extends hb
  | tail hr hstep ih =>
    cases hstep with
    | @insert j n d f hj hd hf hn =>
      intro m g hg
      rw [get?_insert] at hg
      split at hg
      · rename_i he
        subst m
        cases hg
        have hfb := Definition.resolve_mono ih hf
        obtain ⟨g, hg⟩ := contains_iff.1 (hs j hj n d f hd hfb)
        rcases grown_origin hb hg with hc | ⟨j', hj', d', hd', hg'⟩
        · rw [contains_eq_false_iff.1 (hfresh.contains hj hd)] at hc
          cases hc
        · rw [← hfresh.definition_unique hj hj' hd hd', hfb, Except.ok.injEq] at hg'
          rw [hg, hg']
      · exact ih m g hg

theorem Saturated.unique (hfresh : Fresh c js) {a b : Catalogue (Curve Float)}
    (ha : ReflTransGen (Grows js) c a) (hsa : Saturated js a)
    (hb : ReflTransGen (Grows js) c b) (hsb : Saturated js b) : a = b := by
  apply ext
  intro n
  apply Option.ext
  intro f
  exact ⟨Saturated.extends_grown hfresh ha hb hsb n f, Saturated.extends_grown hfresh hb ha hsa n f⟩

end Catalogue
end Curves
