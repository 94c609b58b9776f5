import Std.Data.ExtTreeMap.Lemmas
import Curves.Catalogue.Entry

namespace Curves

namespace Catalogue

variable {β : Type}

@[simp] theorem get?_insert (c : Catalogue β) (n m : String) (b : β) :
    (c.insert n b).get? m = if n = m then some b else c.get? m := by
  simp only [insert, get?, Std.ExtTreeMap.getElem?_insert, Std.compare_eq_iff_eq]

theorem contains_iff {c : Catalogue β} {n : String} :
    c.contains n = true ↔ ∃ b, c.get? n = some b := by
  rw [contains, Std.ExtTreeMap.contains_eq_isSome_getElem?, Option.isSome_iff_exists]
  rfl

theorem contains_eq_false_iff {c : Catalogue β} {n : String} :
    c.contains n = false ↔ c.get? n = none := by
  rw [← Bool.not_eq_true, contains_iff, Option.eq_none_iff_forall_ne_some, not_exists]

theorem ext {c c' : Catalogue β} (h : ∀ n, c.get? n = c'.get? n) : c = c' := by
  cases c with
  | mk t =>
    cases c' with
    | mk t' => exact congrArg mk (Std.ExtTreeMap.ext_getElem? h)

theorem get_eq_ok_iff {c : Catalogue β} {n : String} {b : β} :
    c.get n = .ok b ↔ c.get? n = some b := by
  unfold get
  cases c.get? n <;> simp

def Extends (c c' : Catalogue β) : Prop :=
  ∀ n b, c.get? n = some b → c'.get? n = some b

theorem Extends.refl (c : Catalogue β) : c.Extends c :=
  fun _ _ h => h

theorem Extends.trans {c₁ c₂ c₃ : Catalogue β} (h : c₁.Extends c₂) (h' : c₂.Extends c₃) :
    c₁.Extends c₃ :=
  fun n b hb => h' n b (h n b hb)

theorem Extends.contains {c c' : Catalogue β} (h : c.Extends c') {n : String}
    (hn : c.contains n = true) : c'.contains n = true := by
  obtain ⟨b, hb⟩ := contains_iff.1 hn
  exact contains_iff.2 ⟨b, h n b hb⟩

theorem extends_insert {c : Catalogue β} {n : String} (h : c.contains n = false) (b : β) :
    c.Extends (c.insert n b) := by
  intro m b' hb
  have hne : n ≠ m := by
    intro he
    subst m
    rw [contains_eq_false_iff.1 h] at hb
    cases hb
  rw [get?_insert, if_neg hne]
  exact hb

theorem contains_insert {c : Catalogue β} {n m : String} {b : β} :
    (c.insert n b).contains m = true ↔ n = m ∨ c.contains m = true := by
  rw [contains_iff, contains_iff, get?_insert]
  by_cases h : n = m <;> simp [h]

end Catalogue

namespace Definition

variable {c c' : Catalogue (Curve Float)}

def resolveBands (c : Catalogue (Curve Float)) (bands : List (Band Float String)) :
    Except LoadError (List (Band Float (Curve Float))) :=
  bands.mapM fun b => do
    let f ← c.get b.body
    return ⟨b.min, b.max, f⟩

theorem resolve_piecewise (c : Catalogue (Curve Float)) (bands : List (Band Float String)) :
    (piecewise bands).resolve c = Curve.ofBands <$> resolveBands c bands :=
  rfl

theorem resolve_affine (c : Catalogue (Curve Float)) (inner : String) (t : Affine Float) :
    (affine inner t).resolve c = Curve.affine t <$> c.get inner :=
  rfl

theorem resolveBands_cons (c : Catalogue (Curve Float)) (b : Band Float String)
    (bands : List (Band Float String)) :
    resolveBands c (b :: bands) = do
      let f ← c.get b.body
      let fs ← resolveBands c bands
      return ⟨b.min, b.max, f⟩ :: fs := by
  simp only [resolveBands, List.mapM_cons, bind_assoc, pure_bind]

theorem resolveBands_congr {bands : List (Band Float String)}
    (h : ∀ b ∈ bands, c.get? b.body = c'.get? b.body) :
    resolveBands c bands = resolveBands c' bands := by
  induction bands with
  | nil => rfl
  | cons b bands ih =>
    have hb : c.get b.body = c'.get b.body := by
      simp only [Catalogue.get, h b List.mem_cons_self]
    rw [resolveBands_cons, resolveBands_cons, hb, ih fun d hd => h d (List.mem_cons_of_mem b hd)]

theorem resolveBands_ok_iff {bands : List (Band Float String)} :
    (∃ fs, resolveBands c bands = .ok fs) ↔ ∀ b ∈ bands, c.contains b.body = true := by
  induction bands with
  | nil => exact ⟨fun _ b hb => (List.not_mem_nil hb).elim, fun _ => ⟨[], rfl⟩⟩
  | cons b bands ih =>
    rw [resolveBands_cons, List.forall_mem_cons, ← ih, Catalogue.contains_iff]
    constructor
    · rintro ⟨fs, h⟩
      cases hb : c.get b.body with
      | error => rw [hb] at h; cases h
      | ok f =>
        cases hr : resolveBands c bands with
        | error => rw [hb, hr] at h; cases h
        | ok rest => exact ⟨⟨f, Catalogue.get_eq_ok_iff.1 hb⟩, rest, rfl⟩
    · rintro ⟨⟨f, hf⟩, rest, hr⟩
      rw [Catalogue.get_eq_ok_iff.2 hf, hr]
      exact ⟨_, rfl⟩

/-- The curve of a definition depends on the curves it refers to and on no others. -/
theorem resolve_congr {d : Definition} (h : ∀ r ∈ d.references, c.get? r = c'.get? r) :
    d.resolve c = d.resolve c' := by
  cases d with
  | polynomial => rfl
  | piecewise bands =>
    rw [resolve_piecewise, resolve_piecewise, resolveBands_congr]
    exact fun b hb => h b.body (List.mem_map_of_mem hb)
  | spline => rfl
  | affine inner t =>
    have hi : c.get inner = c'.get inner := by
      simp only [Catalogue.get, h inner List.mem_cons_self]
    rw [resolve_affine, resolve_affine, hi]
  | oscillator => rfl

theorem resolve_ok_iff {d : Definition} :
    (∃ f, d.resolve c = .ok f) ↔ ∀ r ∈ d.references, c.contains r = true := by
  cases d with
  | polynomial => exact ⟨fun _ r hr => (List.not_mem_nil hr).elim, fun _ => ⟨_, rfl⟩⟩
  | piecewise bands =>
    rw [references, List.forall_mem_map, ← resolveBands_ok_iff, resolve_piecewise]
    cases resolveBands c bands with
    | error => constructor <;> rintro ⟨_, h⟩ <;> cases h
    | ok fs => exact ⟨fun _ => ⟨fs, rfl⟩, fun _ => ⟨_, rfl⟩⟩
  | spline => exact ⟨fun _ r hr => (List.not_mem_nil hr).elim, fun _ => ⟨_, rfl⟩⟩
  | affine inner t =>
    rw [references, List.forall_mem_singleton, Catalogue.contains_iff, resolve_affine]
    cases hi : c.get inner with
    | error =>
      constructor
      · rintro ⟨_, h⟩
        cases h
      · rintro ⟨f, hf⟩
        rw [Catalogue.get_eq_ok_iff.2 hf] at hi
        cases hi
    | ok f => exact ⟨fun _ => ⟨f, Catalogue.get_eq_ok_iff.1 hi⟩, fun _ => ⟨_, rfl⟩⟩
  | oscillator => exact ⟨fun _ r hr => (List.not_mem_nil hr).elim, fun _ => ⟨_, rfl⟩⟩

/-- The curve of a definition, where every name has a curve. -/
def build (value : String → Curve Float) : Definition → Curve Float
  | polynomial p => .polynomial p
  | piecewise bands => .ofBands (bands.map fun b => ⟨b.min, b.max, value b.body⟩)
  | spline points options => .spline options points
  | affine inner t => .affine t (value inner)
  | oscillator o => .oscillator o

theorem resolveBands_eq_map {value : String → Curve Float} {bands : List (Band Float String)}
    (h : ∀ b ∈ bands, c.get? b.body = some (value b.body)) :
    resolveBands c bands = .ok (bands.map fun b => ⟨b.min, b.max, value b.body⟩) := by
  induction bands with
  | nil => rfl
  | cons b bands ih =>
    have hb := Catalogue.get_eq_ok_iff.2 (h b List.mem_cons_self)
    rw [resolveBands_cons, hb, ih fun d hd => h d (List.mem_cons_of_mem b hd)]
    rfl

theorem resolve_eq_build {value : String → Curve Float} {d : Definition}
    (h : ∀ r ∈ d.references, c.get? r = some (value r)) : d.resolve c = .ok (d.build value) := by
  cases d with
  | polynomial => rfl
  | piecewise bands =>
    rw [resolve_piecewise, resolveBands_eq_map fun b hb => h b.body (List.mem_map_of_mem hb)]
    rfl
  | spline => rfl
  | affine inner t =>
    rw [resolve_affine, Catalogue.get_eq_ok_iff.2 (h inner List.mem_cons_self)]
    rfl
  | oscillator => rfl

/-- The curves of all references can be told from the curve of the definition. -/
theorem build_injective {value value' : String → Curve Float} {d : Definition}
    (h : d.build value = d.build value') : ∀ r ∈ d.references, value r = value' r := by
  cases d with
  | polynomial => exact fun r hr => (List.not_mem_nil hr).elim
  | piecewise bands =>
    have hsort (v : String → Curve Float) :
        Bands.ofList (bands.map fun b => (⟨b.min, b.max, v b.body⟩ : Band Float (Curve Float))) =
          (Bands.ofList bands).map fun b => ⟨b.min, b.max, v b.body⟩ := by
      symm
      apply List.map_mergeSort
      intro b _ b' _
      rfl
    rw [build, build, Curve.ofBands, Curve.ofBands, Curve.piecewise.injEq, hsort, hsort,
      List.map_inj_left] at h
    rw [references, List.forall_mem_map]
    intro b hb
    have hb' := h b ((List.mergeSort_perm bands _).mem_iff.2 hb)
    rw [Band.mk.injEq] at hb'
    exact hb'.2.2
  | spline => exact fun r hr => (List.not_mem_nil hr).elim
  | affine inner t =>
    rw [build, build, Curve.affine.injEq] at h
    exact List.forall_mem_singleton.2 h.2
  | oscillator => exact fun r hr => (List.not_mem_nil hr).elim

theorem exists_build {d : Definition} {f : Curve Float} (h : d.resolve c = .ok f) :
    ∃ value, (∀ r ∈ d.references, c.get? r = some (value r)) ∧ d.build value = f := by
  have hvalue : ∀ r ∈ d.references, c.get? r = some ((c.get? r).getD f) := by
    intro r hr
    obtain ⟨g, hg⟩ := Catalogue.contains_iff.1 (resolve_ok_iff.1 ⟨f, h⟩ r hr)
    rw [hg, Option.getD_some]
  refine ⟨fun r => (c.get? r).getD f, hvalue, ?_⟩
  rw [resolve_eq_build hvalue, Except.ok.injEq] at h
  exact h

theorem get?_eq_of_resolve {d : Definition} {f : Curve Float} (h : d.resolve c = .ok f)
    (h' : d.resolve c' = .ok f) : ∀ r ∈ d.references, c.get? r = c'.get? r := by
  obtain ⟨value, hv, hf⟩ := exists_build h
  obtain ⟨value', hv', hf'⟩ := exists_build h'
  intro r hr
  rw [hv r hr, hv' r hr, build_injective (hf.trans hf'.symm) r hr]

/-- A curve that could be made stays the same when more curves are known. -/
theorem resolve_mono (hc : c.Extends c') {d : Definition} {f : Curve Float}
    (h : d.resolve c = .ok f) : d.resolve c' = .ok f := by
  rw [← h]
  apply resolve_congr
  intro r hr
  obtain ⟨g, hg⟩ := Catalogue.contains_iff.1 (resolve_ok_iff.1 ⟨f, h⟩ r hr)
  rw [hg, hc r g hg]

end Definition
end Curves
