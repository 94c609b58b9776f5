import Curves.Proofs.Catalogue.Readings

namespace Curves.Catalogue

open Definition (decode name? read)
open Progress (Reads Turn names_read)
open Relation (ReflTransGen TransGen)

def RefersTo (j : Json) (n : String) : Prop :=
  ∃ m d, decode j = .ok (m, d) ∧ n ∈ d.references

/-- The entry `j` refers to a name that is not known and belongs to the entry `k`. -/
def Awaits (c : Catalogue (Curve Float)) (js : List Json) (j k : Json) : Prop :=
  k ∈ js ∧ ∃ n, RefersTo j n ∧ name? k = some n ∧ c.contains n = false

/-- The entry `j` refers to a name that is known, and that the other entry `k` defines anew. -/
structure Redefines (c : Catalogue (Curve Float)) (j k : Json) (n : String) : Prop where
  known : c.contains n = true
  refers : RefersTo j n
  defines : name? k = some n
  other : name? j ≠ some n

/-- Every entry is well formed and comes after those that it needs. -/
def IsOrdered (c : Catalogue (Curve Float)) (order : List Json) : Prop :=
  ∀ before j after, order = before ++ j :: after → (∃ n, name? j = some n) ∧
    ∀ r, RefersTo j r → c.contains r = true ∨ r ∈ before.filterMap name?

variable {c a b : Catalogue (Curve Float)} {js order before after : List Json} {j k : Json}
  {n : String}

theorem RefersTo.mem_references (h : RefersTo j n) {m : String} {d : Definition}
    (hd : decode j = .ok (m, d)) : n ∈ d.references := by
  obtain ⟨m', d', hd', hn⟩ := h
  rw [hd, Except.ok.injEq, Prod.mk.injEq] at hd'
  rw [hd'.2]
  exact hn

/-- An entry can be read where everything that it refers to is known. -/
theorem exists_read_iff : (∃ e, read c j = .ok e) ↔
    (∃ n, name? j = some n) ∧ ∀ r, RefersTo j r → c.contains r = true := by
  constructor
  · rintro ⟨e, h⟩
    obtain ⟨d, hd, hf⟩ := Definition.exists_of_read h
    refine ⟨⟨e.name, names_read c j e h⟩, fun r hr => ?_⟩
    exact Definition.resolve_ok_iff.1 ⟨e.value, hf⟩ r (hr.mem_references hd)
  · rintro ⟨⟨n, hn⟩, hr⟩
    obtain ⟨d, hd⟩ := Definition.name?_eq_some_iff.1 hn
    obtain ⟨f, hf⟩ := Definition.resolve_ok_iff.2 fun r hrd => hr r ⟨n, d, hd, hrd⟩
    exact ⟨⟨n, f, d.warnings⟩, by rw [Definition.read_of_decode hd, hf]; rfl⟩

theorem IsOrdered.tail (h : IsOrdered c (j :: order)) (hj : name? j = some n) (f : Curve Float) :
    IsOrdered (c.insert n f) order := by
  rintro before k after rfl
  obtain ⟨hk, hr⟩ := h (j :: before) k after rfl
  refine ⟨hk, fun r hrk => ?_⟩
  have hr := hr r hrk
  rw [List.filterMap_cons_some hj, List.mem_cons] at hr
  rw [contains_insert, or_assoc]
  rcases hr with hc | rfl | hbefore
  · exact .inr (.inl hc)
  · exact .inl rfl
  · exact .inr (.inr hbefore)

theorem isOrdered_iff : IsOrdered c order ↔ ∃ a, Reads read c order a := by
  constructor
  · intro h
    induction order generalizing c with
    | nil => exact ⟨c, .nil⟩
    | cons j order ih =>
      obtain ⟨hname, hrefs⟩ := h [] j order rfl
      obtain ⟨e, he⟩ :=
        exists_read_iff.2 ⟨hname, fun r hr => (hrefs r hr).resolve_right List.not_mem_nil⟩
      obtain ⟨a, ha⟩ := ih (h.tail (names_read c j e he) e.value)
      exact ⟨a, .cons he ha⟩
  · rintro ⟨a, h⟩ before j after rfl
    obtain ⟨b, e, hb, he, -⟩ := h.exists_of_cons
    obtain ⟨hj, hr⟩ := exists_read_iff.1 ⟨e, he⟩
    exact ⟨hj, fun r hrj => (hb.contains_iff names_read).1 (hr r hrj)⟩

/-- What can be read one after the other can be read once everything possible is bound. -/
theorem forall_read_of_reads (h : Reads read b order a)
    (hb : ∀ n, b.contains n = true → c.contains n = true) (hs : Saturated order c) :
    ∀ j ∈ order, ∃ e, read c j = .ok e := by
  induction h with
  | nil => exact List.forall_mem_nil _
  | @cons b j e order a he _ ih =>
    obtain ⟨hname, hrefs⟩ := exists_read_iff.1 ⟨e, he⟩
    obtain ⟨e', he'⟩ := exists_read_iff.2 ⟨hname, fun r hr => hb r (hrefs r hr)⟩
    obtain ⟨d, hd, hf⟩ := Definition.exists_of_read he'
    have hname : e.name = e'.name := by
      rw [← Option.some.injEq, ← names_read b j e he, names_read c j e' he']
    refine List.forall_mem_cons.2 ⟨⟨e', he'⟩, ih ?_ fun k hk => hs k (List.mem_cons_of_mem j hk)⟩
    intro n hn
    rcases contains_insert.1 hn with rfl | hbn
    · rw [hname]
      exact hs j List.mem_cons_self e'.name d e'.value hd hf
    · exact hb n hbn

theorem loadAll_of_reads (h : Reads read c js a) :
    (Loader.curves.loadAll c js).error? = none ∧ (Loader.curves.loadAll c js).catalogue = a := by
  obtain ⟨rounds, hr⟩ := h.exists_rounds
  exact Progress.Rounds.readAnyOrder_ok (p := .start c) hr

theorem exists_reads_of_loadAll (hok : (Loader.curves.loadAll c js).error? = none) :
    ∃ order, order.Perm js ∧ Reads read c order (Loader.curves.loadAll c js).catalogue := by
  obtain ⟨rounds, h⟩ := Progress.exists_rounds (.start c) js hok
  exact ⟨rounds.flatten, h.perm, h.reads⟩

theorem loadAll_error_none_of_perm {js' : List Json} (hp : js'.Perm js)
    (hok : (Loader.curves.loadAll c js).error? = none) :
    (Loader.curves.loadAll c js').error? = none := by
  obtain ⟨order, ho, h⟩ := exists_reads_of_loadAll hok
  obtain ⟨done, left, hperm, hdone, hs⟩ :=
    Progress.exists_reads_settled read (.start c) js'
  have hsat : Saturated order (Loader.curves.loadAll c js').catalogue := by
    intro j hj n d f hd hf
    rcases List.mem_append.1 (hperm.mem_iff.2 (hp.mem_iff.2 (ho.mem_iff.1 hj))) with hjd | hjl
    · refine (hdone.contains_iff names_read).2 (.inr (List.mem_filterMap.2 ⟨j, hjd, ?_⟩))
      exact Definition.name?_eq_some_iff.2 ⟨d, hd⟩
    · obtain ⟨error, he⟩ := hs.fails j hjl
      have hr : read (Loader.curves.loadAll c js').catalogue j = .error error := he
      rw [Definition.read_of_decode hd, hf] at hr
      cases hr
  have hread := forall_read_of_reads h
    (fun n hn => (hdone.contains_iff names_read).2 (.inl hn)) hsat
  refine hs.error_none_iff.2 (List.eq_nil_iff_forall_not_mem.2 fun j hj => ?_)
  obtain ⟨e, he⟩ := hread j
    (ho.mem_iff.2 (hp.mem_iff.1 (hperm.mem_iff.1 (List.mem_append_right done hj))))
  obtain ⟨error, hf⟩ := hs.fails j hj
  rw [he] at hf
  cases hf

/-- The entries, which have names of their own, can be read in this order. -/
structure Arranged (c : Catalogue (Curve Float)) (js order : List Json)
    (a : Catalogue (Curve Float)) : Prop where
  reads : Reads read c order a
  perm : order.Perm js
  nodup : (js.filterMap name?).Nodup

namespace Arranged

theorem exists_turn (h : Arranged c js (before ++ j :: after) a) :
    ∃ b e, Turn read name? c before j a b e :=
  h.reads.exists_turn names_read ((h.perm.filterMap name?).nodup_iff.2 h.nodup)

theorem mem (h : Arranged c js (before ++ j :: after) a) : j ∈ js :=
  h.perm.mem_iff.1 (List.mem_append_right before List.mem_cons_self)

theorem mem_of_before (h : Arranged c js (before ++ after) a) (hk : k ∈ before) : k ∈ js :=
  h.perm.mem_iff.1 (List.mem_append_left after hk)

theorem exists_split (h : Arranged c js order a) (hj : j ∈ js) :
    ∃ before after, order = before ++ j :: after :=
  List.mem_iff_append.1 (h.perm.mem_iff.2 hj)

theorem known_or_before (h : Arranged c js (before ++ j :: after) a) (hn : RefersTo j n) :
    c.contains n = true ∨ n ∈ before.filterMap name? :=
  (isOrdered_iff.2 ⟨a, h.reads⟩ before j after rfl).2 n hn

theorem not_mem_before (h : Arranged c js (before ++ j :: after) a) (hj : name? j = some n) :
    n ∉ before.filterMap name? := by
  have hnodup := (h.perm.filterMap name?).nodup_iff.2 h.nodup
  rw [List.filterMap_append, List.filterMap_cons_some hj, List.nodup_append] at hnodup
  exact fun hbefore => hnodup.2.2 n hbefore n List.mem_cons_self rfl

/-- Everything that an entry awaits, directly or not, is read before it. -/
theorem mem_before_of_awaits (h : Arranged c js (before ++ after) a) (hj : j ∈ before)
    (hjk : TransGen (Awaits c js) j k) : k ∈ before := by
  have hstep : ∀ i l, i ∈ before → Awaits c js i l → l ∈ before := by
    rintro i l hi ⟨hl, r, hr, hlr, hc⟩
    obtain ⟨front, rest, rfl⟩ := List.mem_iff_append.1 hi
    have hknown : ¬ c.contains r = true := by
      rw [hc]
      exact Bool.false_ne_true
    have hsplit := h
    rw [List.append_assoc, List.cons_append] at hsplit
    obtain ⟨m, hm, hmr⟩ :=
      List.mem_filterMap.1 ((hsplit.known_or_before hr).resolve_left hknown)
    have hmem : m ∈ front ++ i :: rest := List.mem_append_left (i :: rest) hm
    rw [← Definition.eq_of_name? h.nodup (h.mem_of_before hmem) hl hmr hlr]
    exact hmem
  induction hjk with
  | single hjk => exact hstep j _ hj hjk
  | tail _ hkl ih => exact hstep _ _ ih hkl

theorem not_awaits_of_mem (h : Arranged c js (before ++ j :: after) a) (hk : k ∈ before) :
    ¬ TransGen (Awaits c js) k j := by
  intro hkj
  obtain ⟨b, e, ht⟩ := h.exists_turn
  have hname := names_read b j e ht.read_eq
  exact h.not_mem_before hname
    (List.mem_filterMap.2 ⟨j, h.mem_before_of_awaits hk hkj, hname⟩)

end Arranged

/-- Where a known name is defined anew, the entries that refer to it are read before that in every
arrangement, or the curve stays the same. -/
def Unambiguous (c : Catalogue (Curve Float)) (js : List Json) (a : Catalogue (Curve Float)) :
    Prop :=
  ∀ j ∈ js, ∀ k ∈ js, ∀ n, Redefines c j k n →
    TransGen (Awaits c js) k j ∨ a.get? n = c.get? n

namespace Unambiguous

/-- A known name that is defined anew before it is referred to keeps its curve. -/
theorem get?_eq (h : Unambiguous c js a) (hb : Arranged c js (before ++ j :: after) b)
    (href : RefersTo j n) (hbefore : n ∈ before.filterMap name?) (hc : c.contains n = true) :
    a.get? n = c.get? n := by
  obtain ⟨k, hk, hkn⟩ := List.mem_filterMap.1 hbefore
  have hjn : name? j ≠ some n := fun hj => hb.not_mem_before hj hbefore
  exact (h j hb.mem k (hb.mem_of_before hk) n ⟨hc, href, hkn, hjn⟩).resolve_left
    (hb.not_awaits_of_mem hk)

theorem get?_eq_of_turns (h : Unambiguous c js a) {before' after' : List Json}
    (ha : Arranged c js (before ++ j :: after) a) (hb : Arranged c js (before' ++ j :: after') b)
    (ih : ∀ n ∈ before'.filterMap name?, b.get? n = a.get? n) (hj : name? j = some n) :
    b.get? n = a.get? n := by
  obtain ⟨x, e, ht⟩ := ha.exists_turn
  obtain ⟨y, e', ht'⟩ := hb.exists_turn
  obtain ⟨d, hd, hf⟩ := Definition.exists_of_read ht.read_eq
  obtain ⟨d', hd', hf'⟩ := Definition.exists_of_read ht'.read_eq
  have hname : e.name = n := by
    rw [← Option.some.injEq, ← names_read x j e ht.read_eq, hj]
  rw [hd, Except.ok.injEq, Prod.mk.injEq] at hd'
  obtain ⟨hname', rfl⟩ := hd'
  have hxy : ∀ r ∈ d.references, x.get? r = y.get? r := by
    intro r hrd
    have href : RefersTo j r := ⟨e.name, d, hd, hrd⟩
    by_cases hold : r ∈ before.filterMap name?
    · rw [ht.get?_of_mem r hold]
      by_cases hnew : r ∈ before'.filterMap name?
      · rw [ht'.get?_of_mem r hnew, ih r hnew]
      · rw [ht'.get?_of_not_mem r hnew]
        exact h.get?_eq ha href hold ((hb.known_or_before href).resolve_right hnew)
    · rw [ht.get?_of_not_mem r hold]
      by_cases hnew : r ∈ before'.filterMap name?
      · rw [ht'.get?_of_mem r hnew, ih r hnew]
        exact (h.get?_eq hb href hnew ((ha.known_or_before href).resolve_right hold)).symm
      · rw [ht'.get?_of_not_mem r hnew]
  rw [Definition.resolve_congr hxy, hf', Except.ok.injEq] at hf
  rw [← hname, ht.bound, hname', ht'.bound, hf]

/-- The entries get the same curves one after the other, in the second order. -/
theorem eq_of_arranged (h : Unambiguous c js a) {order' : List Json}
    (ha : Arranged c js order a) (hb : Arranged c js order' b) : b = a := by
  have hall : ∀ before after, order' = before ++ after →
      ∀ n ∈ before.filterMap name?, b.get? n = a.get? n := by
    intro before
    induction before using List.reverseRecOn with
    | nil => exact fun _ _ n hn => (List.not_mem_nil hn).elim
    | append_singleton before j ih =>
      rintro after rfl m hm
      rw [List.append_assoc, List.singleton_append] at hb ih
      rw [List.filterMap_append, List.mem_append] at hm
      rcases hm with hm | hm
      · exact ih (j :: after) rfl m hm
      · obtain ⟨i, hi, hj⟩ := List.mem_filterMap.1 hm
        obtain rfl := List.mem_singleton.1 hi
        obtain ⟨front, rest, rfl⟩ := ha.exists_split hb.mem
        exact h.get?_eq_of_turns ha hb (ih (i :: after) rfl) hj
  apply ext
  intro n
  by_cases hmem : n ∈ order'.filterMap name?
  · exact hall order' [] (List.append_nil order').symm n hmem
  · have hold : n ∉ order.filterMap name? :=
      fun h => hmem (((ha.perm.trans hb.perm.symm).filterMap name?).mem_iff.1 h)
    rw [hb.reads.get?_of_not_mem names_read hmem, ha.reads.get?_of_not_mem names_read hold]

end Unambiguous

theorem exists_of_filter {P : Json → Bool} (h : order.filter P = before ++ j :: after) :
    P j = true ∧ ∃ front rest, order = front ++ j :: rest ∧ before = front.filter P := by
  obtain ⟨front, rest, rfl, hfront, hrest⟩ := List.filter_eq_append_iff.1 h
  obtain ⟨skipped, rest, rfl, hskipped, hj, -⟩ := List.filter_eq_cons_iff.1 hrest
  refine ⟨hj, front ++ skipped, rest, (List.append_assoc front skipped _).symm, ?_⟩
  rw [List.filter_append, List.filter_eq_nil_iff.2 hskipped, List.append_nil, hfront]

namespace Arranged

/-- Entries that await none of the others can be read first. -/
theorem exists_reads_filter (h : Arranged c js order a) {P : Json → Bool}
    (hP : ∀ i k, P i = true → Awaits c js i k → P k = true) :
    ∃ b, Reads read c (order.filter P) b := by
  refine isOrdered_iff.1 ?_
  intro before j after he
  obtain ⟨hj, front, rest, rfl, rfl⟩ := exists_of_filter he
  obtain ⟨hname, hrefs⟩ := isOrdered_iff.2 ⟨a, h.reads⟩ front j rest rfl
  refine ⟨hname, fun r hr => ?_⟩
  rcases hrefs r hr with hc | hfront
  · exact .inl hc
  · obtain ⟨k, hk, hkr⟩ := List.mem_filterMap.1 hfront
    rw [or_iff_not_imp_left, Bool.not_eq_true]
    intro hc
    have hPk := hP j k hj ⟨h.mem_of_before hk, r, hr, hkr, hc⟩
    exact List.mem_filterMap.2 ⟨k, List.mem_filter.2 ⟨hk, hPk⟩, hkr⟩

theorem exists_reads_filter_not (h : Arranged c js order a) {P : Json → Bool}
    (hb : Reads read c (order.filter P) b) : ∃ x, Reads read b (order.filter (!P ·)) x := by
  refine isOrdered_iff.1 ?_
  intro before j after he
  obtain ⟨-, front, rest, rfl, rfl⟩ := exists_of_filter he
  obtain ⟨hname, hrefs⟩ := isOrdered_iff.2 ⟨a, h.reads⟩ front j rest rfl
  refine ⟨hname, fun r hr => ?_⟩
  rw [hb.contains_iff names_read, or_assoc]
  rcases hrefs r hr with hc | hfront
  · exact .inl hc
  · obtain ⟨k, hk, hkr⟩ := List.mem_filterMap.1 hfront
    right
    cases hPk : P k with
    | true =>
      have hmem := List.mem_filter.2 ⟨List.mem_append_left (j :: rest) hk, hPk⟩
      exact .inl (List.mem_filterMap.2 ⟨k, hmem, hkr⟩)
    | false =>
      have hmem : k ∈ front.filter (!P ·) := List.mem_filter.2 ⟨hk, by rw [hPk]; rfl⟩
      exact .inr (List.mem_filterMap.2 ⟨k, hmem, hkr⟩)

theorem exists_partition (h : Arranged c js order a) (P : Json → Prop)
    (hP : ∀ i k, P i → Awaits c js i k → P k) :
    ∃ front rest b, Arranged c js (front ++ rest) b ∧ (∀ i ∈ front, P i) ∧ ∀ i ∈ rest, ¬ P i := by
  classical
  obtain ⟨b, hb⟩ := h.exists_reads_filter (P := fun i => decide (P i))
    fun i k hi hik => decide_eq_true (hP i k (of_decide_eq_true hi) hik)
  obtain ⟨x, hx⟩ := h.exists_reads_filter_not hb
  have hperm := (List.filter_append_perm (fun i => decide (P i)) order).trans h.perm
  refine ⟨_, _, x, ⟨hb.append hx, hperm, h.nodup⟩, ?_, ?_⟩
  · exact fun i hi => of_decide_eq_true (List.mem_filter.1 hi).2
  · intro i hi
    simpa using (List.mem_filter.1 hi).2

/-- An entry can be read after any other one that does not await it. -/
theorem exists_after (h : Arranged c js order a) (hj : j ∈ js) (hk : k ∈ js) (hkj : k ≠ j)
    (hawaits : ¬ TransGen (Awaits c js) k j) :
    ∃ before after b, Arranged c js (before ++ j :: after) b ∧ k ∈ before := by
  -- the entry `k` and all that it awaits go first
  obtain ⟨front, rest, b, hb, hfront, hrest⟩ :=
    h.exists_partition (ReflTransGen (Awaits c js) k) fun i l hi hil => hi.tail hil
  have hkf : k ∈ front :=
    (List.mem_append.1 (hb.perm.mem_iff.2 hk)).resolve_right fun hkr => hrest k hkr .refl
  have hjr : j ∈ rest := by
    refine (List.mem_append.1 (hb.perm.mem_iff.2 hj)).resolve_left fun hjf => ?_
    rcases Relation.reflTransGen_iff_eq_or_transGen.1 (hfront j hjf) with he | ht
    · exact hkj he.symm
    · exact hawaits ht
  obtain ⟨between, after, rfl⟩ := List.mem_iff_append.1 hjr
  rw [← List.append_assoc] at hb
  exact ⟨front ++ between, after, b, hb, List.mem_append_left between hkf⟩

theorem exists_before (h : Arranged c js order a) (hj : j ∈ js) (hjn : name? j ≠ some n)
    (hn : c.contains n = true) :
    ∃ before after b, Arranged c js (before ++ j :: after) b ∧ n ∉ before.filterMap name? := by
  have hP : ∀ i k, name? i ≠ some n → Awaits c js i k → name? k ≠ some n := by
    rintro i k - ⟨-, r, -, hkr, hc⟩ hkn
    rw [hkr, Option.some.injEq] at hkn
    rw [hkn, hn] at hc
    cases hc
  obtain ⟨front, rest, b, hb, hfront, hrest⟩ := h.exists_partition _ hP
  have hjf : j ∈ front :=
    (List.mem_append.1 (hb.perm.mem_iff.2 hj)).resolve_right fun hjr => hrest j hjr hjn
  obtain ⟨before, between, rfl⟩ := List.mem_iff_append.1 hjf
  rw [List.append_assoc, List.cons_append] at hb
  refine ⟨before, between ++ rest, b, hb, fun hmem => ?_⟩
  obtain ⟨k, hk, hkn⟩ := List.mem_filterMap.1 hmem
  exact hfront k (List.mem_append_left (j :: between) hk) hkn

/-- What is the same in every arrangement is unambiguous: the entry that refers to a name can be
read both before and after that is defined anew, and it tells the curves apart. -/
theorem unambiguous (h : Arranged c js order a)
    (hall : ∀ order' b, Arranged c js order' b → b = a) : Unambiguous c js a := by
  intro j hj k hk n hjk
  rw [or_iff_not_imp_left]
  intro hawaits
  have hkj : k ≠ j := by
    rintro rfl
    exact hjk.other hjk.defines
  obtain ⟨before, after, b, hb, hmem⟩ := h.exists_after hj hk hkj hawaits
  obtain ⟨before', after', b', hb', hnot⟩ := h.exists_before hj hjk.other hjk.known
  obtain rfl := hall _ b hb
  obtain rfl := hall _ b' hb'
  obtain ⟨x, e, ht⟩ := hb.exists_turn
  obtain ⟨y, e', ht'⟩ := hb'.exists_turn
  obtain ⟨d, hd, hf⟩ := Definition.exists_of_read ht.read_eq
  obtain ⟨d', hd', hf'⟩ := Definition.exists_of_read ht'.read_eq
  rw [hd, Except.ok.injEq, Prod.mk.injEq] at hd'
  obtain ⟨hname, rfl⟩ := hd'
  have hvalue : e.value = e'.value := by
    rw [← Option.some.injEq, ← ht.bound, ← ht'.bound, hname]
  rw [← hvalue] at hf'
  rw [← ht.get?_of_mem n (List.mem_filterMap.2 ⟨k, hmem, hjk.defines⟩),
    ← ht'.get?_of_not_mem n hnot]
  exact Definition.get?_eq_of_resolve hf hf' n (hjk.refers.mem_references hd)

end Arranged

/-- Entries under names of their own that can be loaded can be loaded in every arrangement, and
they are bound to the same curves in all of them exactly if their references are unambiguous. -/
theorem loadAll_perm_iff (c : Catalogue (Curve Float)) (js : List Json)
    (hn : (js.filterMap name?).Nodup) (hok : (Loader.curves.loadAll c js).error? = none) :
    (∀ js', js'.Perm js → (Loader.curves.loadAll c js').error? = none) ∧
      ((∀ js', js'.Perm js →
          (Loader.curves.loadAll c js').catalogue = (Loader.curves.loadAll c js).catalogue) ↔
        Unambiguous c js (Loader.curves.loadAll c js).catalogue) := by
  obtain ⟨order, hp, hr⟩ := exists_reads_of_loadAll hok
  have h : Arranged c js order (Loader.curves.loadAll c js).catalogue := ⟨hr, hp, hn⟩
  refine ⟨fun js' hp' => loadAll_error_none_of_perm hp' hok, fun hall => ?_, fun hu js' hp' => ?_⟩
  · refine h.unambiguous fun order' b hb => ?_
    rw [← hall order' hb.perm, (loadAll_of_reads hb.reads).2]
  · obtain ⟨order', hperm, hr'⟩ := exists_reads_of_loadAll (loadAll_error_none_of_perm hp' hok)
    exact hu.eq_of_arranged h ⟨hr', hperm.trans hp', hn⟩

section Line

def lineEntry : Json :=
  Definition.constantEntry "line" 1

def wrappedEntry : Json :=
  Definition.wrapperEntry "wrapped" "line"

def knownCurves : Catalogue (Curve Float) :=
  (Catalogue.empty.insert "line" (.polynomial ⟨[], 0⟩)).insert "wrapped" (.polynomial ⟨[], 0⟩)

theorem read_lineEntry (c : Catalogue (Curve Float)) :
    read c lineEntry = .ok ⟨"line", .polynomial ⟨[Float.ofInt 1], 0⟩, []⟩ :=
  Definition.read_constantEntry c "line" 1

theorem read_wrappedEntry {f : Curve Float} (h : c.get? "line" = some f) :
    read c wrappedEntry = .ok ⟨"wrapped", .affine .identity f, []⟩ := by
  rw [wrappedEntry, Definition.read_wrapperEntry, get_eq_ok_iff.2 h]
  rfl

theorem reads_line_wrapped : Reads read knownCurves [lineEntry, wrappedEntry]
    ((knownCurves.insert "line" (.polynomial ⟨[Float.ofInt 1], 0⟩)).insert "wrapped"
      (.affine .identity (.polynomial ⟨[Float.ofInt 1], 0⟩))) := by
  refine .cons (read_lineEntry knownCurves) (.cons (read_wrappedEntry ?_) .nil)
  rw [get?_insert, if_pos rfl]

theorem reads_wrapped_line : Reads read knownCurves [wrappedEntry, lineEntry]
    ((knownCurves.insert "wrapped" (.affine .identity (.polynomial ⟨[], 0⟩))).insert "line"
      (.polynomial ⟨[Float.ofInt 1], 0⟩)) := by
  refine .cons (read_wrappedEntry ?_) (.cons (read_lineEntry _) .nil)
  rw [knownCurves, get?_insert, if_neg (by decide), get?_insert, if_pos rfl]

theorem nodup_line_wrapped : ([lineEntry, wrappedEntry].filterMap name?).Nodup := by
  have hnames : [lineEntry, wrappedEntry].filterMap name? = ["line", "wrapped"] := rfl
  rw [hnames]
  decide

theorem loadAll_perm_iff_line_wrapped :
    ([lineEntry, wrappedEntry].filterMap name?).Nodup ∧
      (Loader.curves.loadAll knownCurves [lineEntry, wrappedEntry]).error? = none ∧
      (∀ js', js'.Perm [lineEntry, wrappedEntry] →
        (Loader.curves.loadAll knownCurves js').error? = none) ∧
      ((∀ js', js'.Perm [lineEntry, wrappedEntry] →
          (Loader.curves.loadAll knownCurves js').catalogue =
            (Loader.curves.loadAll knownCurves [lineEntry, wrappedEntry]).catalogue) ↔
        Unambiguous knownCurves [lineEntry, wrappedEntry]
          (Loader.curves.loadAll knownCurves [lineEntry, wrappedEntry]).catalogue) := by
  have hok := (loadAll_of_reads reads_line_wrapped).1
  exact ⟨nodup_line_wrapped, hok,
    loadAll_perm_iff knownCurves [lineEntry, wrappedEntry] nodup_line_wrapped hok⟩

/-- Both orders load, and the wrapped curve is the new line in one and the old one in the other. -/
theorem loadAll_wrapped_line_differs :
    ([lineEntry, wrappedEntry].filterMap name?).Nodup ∧
      (Loader.curves.loadAll knownCurves [lineEntry, wrappedEntry]).error? = none ∧
      (Loader.curves.loadAll knownCurves [wrappedEntry, lineEntry]).error? = none ∧
      (Loader.curves.loadAll knownCurves [lineEntry, wrappedEntry]).catalogue.get? "wrapped" =
        some (.affine .identity (.polynomial ⟨[Float.ofInt 1], 0⟩)) ∧
      (Loader.curves.loadAll knownCurves [wrappedEntry, lineEntry]).catalogue.get? "wrapped" =
        some (.affine .identity (.polynomial ⟨[], 0⟩)) ∧
      (Loader.curves.loadAll knownCurves [wrappedEntry, lineEntry]).catalogue ≠
        (Loader.curves.loadAll knownCurves [lineEntry, wrappedEntry]).catalogue := by
  obtain ⟨hok, hc⟩ := loadAll_of_reads reads_line_wrapped
  obtain ⟨hok', hc'⟩ := loadAll_of_reads reads_wrapped_line
  have hnew : (Loader.curves.loadAll knownCurves [lineEntry, wrappedEntry]).catalogue.get?
      "wrapped" = some (.affine .identity (.polynomial ⟨[Float.ofInt 1], 0⟩)) := by
    rw [hc, get?_insert, if_pos rfl]
  have hold : (Loader.curves.loadAll knownCurves [wrappedEntry, lineEntry]).catalogue.get?
      "wrapped" = some (.affine .identity (.polynomial ⟨[], 0⟩)) := by
    rw [hc', get?_insert, if_neg (by decide), get?_insert, if_pos rfl]
  refine ⟨nodup_line_wrapped, hok, hok', hnew, hold, fun he => ?_⟩
  rw [he, hnew] at hold
  cases hold

end Line

end Curves.Catalogue
