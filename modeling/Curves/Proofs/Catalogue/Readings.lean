import Curves.Proofs.Catalogue.Resolvable
import Curves.Proofs.Catalogue.Rounds

namespace Curves.Progress

variable {ι β : Type}

/-- Reading the entries one after the other succeeds, and leads from one catalogue to another. -/
inductive Reads (read : EntryReader ι β) : Catalogue β → List ι → Catalogue β → Prop
  | nil {c} : Reads read c [] c
  | cons {c i e is c'} (h : read c i = .ok e) (hs : Reads read (c.insert e.name e.value) is c') :
      Reads read c (i :: is) c'

/-- A round from the catalogue `c`: of the pending entries `now` are read in their turns, and
`later` fail in theirs. -/
inductive IsRound (read : EntryReader ι β) :
    Catalogue β → List ι → List ι → List ι → Catalogue β → Prop
  | nil {c} : IsRound read c [] [] [] c
  | success {c i e is now later c'} (h : read c i = .ok e)
      (hs : IsRound read (c.insert e.name e.value) is now later c') :
      IsRound read c (i :: is) (i :: now) later c'
  | failure {c i error is now later c'} (h : read c i = .error error)
      (hs : IsRound read c is now later c') : IsRound read c (i :: is) now (i :: later) c'

/-- The entries are read round by round, at least one in each round, until none is pending. -/
inductive Rounds (read : EntryReader ι β) :
    Catalogue β → List ι → List (List ι) → Catalogue β → Prop
  | done {c} : Rounds read c [] [] c
  | next {c pending now later b rounds c'} (h : IsRound read c pending now later b)
      (hne : now ≠ []) (hs : Rounds read b later rounds c') :
      Rounds read c pending (now :: rounds) c'

variable {read : EntryReader ι β} {c c' : Catalogue β} {is ks : List ι}

theorem Reads.unique {b b' : Catalogue β} (h : Reads read c is b) (h' : Reads read c is b') :
    b = b' := by
  induction h with
  | nil =>
    cases h'
    rfl
  | cons h _ ih =>
    cases h' with
    | cons h' hs' =>
      rw [h, Except.ok.injEq] at h'
      subst h'
      exact ih hs'

theorem Reads.append {b : Catalogue β} (h : Reads read c is b) (hs : Reads read b ks c') :
    Reads read c (is ++ ks) c' := by
  induction h with
  | nil => exact hs
  | cons h _ ih => exact .cons h (ih hs)

theorem Reads.exists_of_append (h : Reads read c (is ++ ks) c') :
    ∃ b, Reads read c is b ∧ Reads read b ks c' := by
  induction is generalizing c with
  | nil => exact ⟨c, .nil, h⟩
  | cons i is ih =>
    cases h with
    | cons h hs =>
      obtain ⟨b, hb, hc⟩ := ih hs
      exact ⟨b, .cons h hb, hc⟩

theorem Reads.exists_of_cons {i : ι} (h : Reads read c (is ++ i :: ks) c') :
    ∃ b e, Reads read c is b ∧ read b i = .ok e ∧ Reads read (b.insert e.name e.value) ks c' := by
  obtain ⟨b, hb, hs⟩ := h.exists_of_append
  cases hs with
  | cons h hs => exact ⟨b, _, hb, h, hs⟩

section Round

variable {now later : List ι}

theorem exists_isRound (read : EntryReader ι β) (p : Progress β) (is : List ι) :
    ∃ now, IsRound read p.catalogue is now (round read p is).2 (round read p is).1.catalogue := by
  induction is generalizing p with
  | nil => exact ⟨[], .nil⟩
  | cons i is ih =>
    cases hr : read p.catalogue i with
    | ok e =>
      obtain ⟨now, h⟩ := ih (p.add e)
      rw [round_cons_ok hr]
      exact ⟨i :: now, .success hr h⟩
    | error error =>
      obtain ⟨now, h⟩ := ih (p.fail error)
      rw [round_cons_error hr]
      exact ⟨now, .failure hr h⟩

theorem IsRound.round_eq {p : Progress β} (h : IsRound read p.catalogue is now later c') :
    (round read p is).2 = later ∧ (round read p is).1.catalogue = c' := by
  generalize hc : p.catalogue = c at h
  induction h generalizing p with
  | nil => exact ⟨rfl, hc⟩
  | @success c i e is now later c' h _ ih =>
    rw [← hc] at h
    rw [round_cons_ok h]
    exact ih (p := p.add e) (by rw [← hc]; rfl)
  | @failure c i error is now later c' h _ ih =>
    rw [← hc] at h
    rw [round_cons_error h]
    obtain ⟨hl, hc'⟩ := ih (p := p.fail error) hc
    exact ⟨congrArg (i :: ·) hl, hc'⟩

theorem IsRound.unique {others left : List ι} {b : Catalogue β}
    (h : IsRound read c is now later c') (h' : IsRound read c is others left b) :
    now = others ∧ later = left ∧ c' = b := by
  induction h generalizing others left with
  | nil =>
    cases h'
    exact ⟨rfl, rfl, rfl⟩
  | success h _ ih =>
    cases h' with
    | success h' hs' =>
      cases h.symm.trans h'
      obtain ⟨rfl, rfl, rfl⟩ := ih hs'
      exact ⟨rfl, rfl, rfl⟩
    | failure h' _ => cases h.symm.trans h'
  | failure h _ ih =>
    cases h' with
    | success h' _ => cases h.symm.trans h'
    | failure _ hs' =>
      obtain ⟨rfl, rfl, rfl⟩ := ih hs'
      exact ⟨rfl, rfl, rfl⟩

theorem IsRound.reads (h : IsRound read c is now later c') : Reads read c now c' := by
  induction h with
  | nil => exact .nil
  | success h _ ih => exact .cons h ih
  | failure _ _ ih => exact ih

theorem IsRound.sublist (h : IsRound read c is now later c') : now.Sublist is := by
  induction h with
  | nil => exact .slnil
  | success _ _ ih => exact ih.cons_cons _
  | failure _ _ ih => exact ih.cons _

theorem IsRound.perm (h : IsRound read c is now later c') : (now ++ later).Perm is := by
  induction h with
  | nil => exact .nil
  | success _ _ ih => exact ih.cons _
  | failure _ _ ih => exact List.perm_middle.trans (ih.cons _)

theorem IsRound.later_sublist (h : IsRound read c is now later c') : later.Sublist is := by
  induction h with
  | nil => exact .slnil
  | success _ _ ih => exact ih.cons _
  | failure _ _ ih => exact ih.cons_cons _

theorem Reads.isRound (h : Reads read c is c') : IsRound read c is is [] c' := by
  induction h with
  | nil => exact .nil
  | cons h _ ih => exact .success h ih

end Round

variable {rounds : List (List ι)}

theorem Rounds.unique {others : List (List ι)} {b : Catalogue β}
    (h : Rounds read c is rounds c') (h' : Rounds read c is others b) :
    others = rounds ∧ b = c' := by
  induction h generalizing others with
  | done =>
    cases h' with
    | done => exact ⟨rfl, rfl⟩
    | next h' hne' _ => exact absurd (List.sublist_nil.1 h'.sublist) hne'
  | next h hne _ ih =>
    cases h' with
    | done => exact absurd (List.sublist_nil.1 h.sublist) hne
    | next h' _ hs' =>
      obtain ⟨rfl, rfl, rfl⟩ := h.unique h'
      obtain ⟨rfl, rfl⟩ := ih hs'
      exact ⟨rfl, rfl⟩

theorem Rounds.reads (h : Rounds read c is rounds c') : Reads read c rounds.flatten c' := by
  induction h with
  | done => exact .nil
  | next h _ _ ih => exact h.reads.append ih

theorem Rounds.perm (h : Rounds read c is rounds c') : rounds.flatten.Perm is := by
  induction h with
  | done => exact .nil
  | next h _ _ ih => exact (ih.append_left _).trans h.perm

/-- No round changes the order in which the entries have their turns. -/
theorem Rounds.forall_sublist (h : Rounds read c is rounds c') : ∀ now ∈ rounds, now.Sublist is := by
  induction h with
  | done => exact List.forall_mem_nil _
  | next h _ _ ih =>
    exact List.forall_mem_cons.2 ⟨h.sublist, fun now hnow => (ih now hnow).trans h.later_sublist⟩

theorem Reads.exists_rounds (h : Reads read c is c') : ∃ rounds, Rounds read c is rounds c' := by
  cases is with
  | nil =>
    cases h
    exact ⟨[], .done⟩
  | cons i is => exact ⟨[i :: is], .next h.isRound (List.cons_ne_nil i is) .done⟩

theorem Rounds.eq_of_nil (h : Rounds read c [] rounds c') : c' = c := by
  cases h with
  | done => rfl
  | next h hne => exact absurd (List.sublist_nil.1 h.sublist) hne

theorem exists_rounds (p : Progress β) (pending : List ι)
    (h : (readAnyOrder read p pending).error? = none) :
    ∃ rounds, Rounds read p.catalogue pending rounds (readAnyOrder read p pending).catalogue := by
  induction p, pending using readAnyOrder.induct read with
  | case1 p pending q failed hr he =>
    rw [readAnyOrder_eq, hr, if_pos he]
    cases pending with
    | nil =>
      rw [round] at hr
      cases hr
      exact ⟨[], .done⟩
    | cons i is =>
      obtain ⟨now, hnow⟩ := exists_isRound read p (i :: is)
      rw [hr, List.isEmpty_iff.1 he] at hnow
      refine ⟨[now], .next hnow ?_ .done⟩
      rintro rfl
      exact List.cons_ne_nil i is (List.nil_perm.1 hnow.perm)
  | case2 p pending q failed hr he hl =>
    have hne : pending ≠ [] := by
      rintro rfl
      exact he (List.isEmpty_iff.2 (List.length_eq_zero_iff.1 hl))
    have hlen : (round read p pending).2.length = pending.length := by rw [hr, hl]
    have hs := settled_round hne hlen
    rw [readAnyOrder_eq, hr, if_neg he, if_pos hl] at h
    rw [hr] at hs
    exact absurd (hs.error_none_iff.1 h) hne
  | case3 p pending q failed hr he hl ih =>
    rw [readAnyOrder_eq, hr, if_neg he, if_neg hl] at h ⊢
    obtain ⟨now, hnow⟩ := exists_isRound read p pending
    rw [hr] at hnow
    obtain ⟨rounds, hrounds⟩ := ih h
    refine ⟨now :: rounds, .next hnow ?_ hrounds⟩
    rintro rfl
    exact hl hnow.perm.length_eq

theorem Rounds.readAnyOrder_ok {p : Progress β} (h : Rounds read p.catalogue is rounds c') :
    (readAnyOrder read p is).error? = none ∧ (readAnyOrder read p is).catalogue = c' := by
  generalize hc : p.catalogue = c at h
  induction h generalizing p with
  | done =>
    rw [Progress.readAnyOrder_eq]
    exact ⟨rfl, hc⟩
  | @next c pending now later b rounds c' h hne hs ih =>
    rw [← hc] at h
    obtain ⟨hlater, hb⟩ := h.round_eq
    rw [Progress.readAnyOrder_eq, hlater]
    cases later with
    | nil =>
      rw [if_pos List.isEmpty_nil, hs.eq_of_nil]
      exact ⟨rfl, hb⟩
    | cons k later =>
      have hlen := h.perm.length_eq
      have hpos := List.length_pos_iff.2 hne
      rw [List.length_append] at hlen
      rw [if_neg (by simp), if_neg (by omega)]
      exact ih hb

theorem stable_reads (c : Catalogue β) (pending : List ι) :
    Stable read fun a left => ∃ done, (done ++ left).Perm pending ∧ Reads read c done a := by
  rintro a before i after e ⟨done, hp, hd⟩ he
  refine ⟨done ++ [i], ?_, hd.append (.cons he .nil)⟩
  rw [List.append_assoc, List.singleton_append]
  exact (List.perm_middle.symm.append_left done).trans hp

/-- Whether loading ends with an error or not, some entries have been read, and the others fail. -/
theorem exists_reads_settled (read : EntryReader ι β) (p : Progress β) (pending : List ι) :
    ∃ done left, (done ++ left).Perm pending ∧
      Reads read p.catalogue done (readAnyOrder read p pending).catalogue ∧
      Settled read (readAnyOrder read p pending) left := by
  obtain ⟨left, ⟨done, hp, hd⟩, hs⟩ :=
    readAnyOrder_settled (stable_reads p.catalogue pending) p pending ⟨[], .rfl, .nil⟩
  exact ⟨done, left, hp, hd, hs⟩

/-- An entry is read under its own name. -/
def Names (read : EntryReader ι β) (name? : ι → Option String) : Prop :=
  ∀ c i e, read c i = .ok e → name? i = some e.name

theorem names_read : Names Definition.read Definition.name? := by
  intro c j e h
  obtain ⟨d, hd, -⟩ := Definition.exists_of_read h
  exact Definition.name?_eq_some_iff.2 ⟨d, hd⟩

section Names

variable {name? : ι → Option String} {n : String}

theorem Reads.get?_of_not_mem (hn : Names read name?) (h : Reads read c is c')
    (hnot : n ∉ is.filterMap name?) : c'.get? n = c.get? n := by
  induction h with
  | nil => rfl
  | @cons c i e is c' h _ ih =>
    rw [List.filterMap_cons_some (hn c i e h), List.mem_cons, not_or] at hnot
    rw [ih hnot.2, Catalogue.get?_insert, if_neg (Ne.symm hnot.1)]

theorem Reads.contains_iff (hn : Names read name?) (h : Reads read c is c') :
    c'.contains n = true ↔ c.contains n = true ∨ n ∈ is.filterMap name? := by
  induction h with
  | nil => simp
  | @cons c i e is c' h _ ih =>
    rw [ih, Catalogue.contains_insert, List.filterMap_cons_some (hn c i e h), List.mem_cons,
      or_assoc, or_left_comm, @eq_comm _ e.name]

/-- The value of the name was built from the entry `i` in its turn, and no entry of that name was
read after it. -/
def BuiltFrom (read : EntryReader ι β) (name? : ι → Option String) (c : Catalogue β)
    (order : List ι) (n : String) (i : ι) (v : β) : Prop :=
  ∃ before after b e, order = before ++ i :: after ∧ Reads read c before b ∧ read b i = .ok e ∧
    e.name = n ∧ e.value = v ∧ n ∉ after.filterMap name?

theorem BuiltFrom.get?_eq (hn : Names read name?) (h : Reads read c is c') {i : ι} {v : β}
    (hb : BuiltFrom read name? c is n i v) : c'.get? n = some v := by
  obtain ⟨before, after, b, e, rfl, hbefore, he, rfl, rfl, hafter⟩ := hb
  obtain ⟨b', e', hb', he', hs⟩ := h.exists_of_cons
  obtain rfl := hbefore.unique hb'
  rw [he, Except.ok.injEq] at he'
  subst he'
  rw [hs.get?_of_not_mem hn hafter, Catalogue.get?_insert, if_pos rfl]

theorem BuiltFrom.name_eq (hn : Names read name?) {i : ι} {v : β}
    (hb : BuiltFrom read name? c is n i v) : name? i = some n := by
  obtain ⟨before, after, b, e, rfl, hbefore, he, rfl, rfl, hafter⟩ := hb
  exact hn b i e he

theorem BuiltFrom.eq_iff_pairwise (hn : Names read name?) {i k : ι} {v : β}
    (hb : BuiltFrom read name? c is n i v) (hnodup : is.Nodup) (hk : k ∈ is)
    (hkn : name? k = some n) : i = k ↔ is.Pairwise fun x y => x = k → name? y ≠ some n := by
  have hi := hb.name_eq hn
  obtain ⟨before, after, b, e, rfl, -, -, -, -, hafter⟩ := hb
  have hlast : ∀ y ∈ after, name? y ≠ some n :=
    fun y hy hyn => hafter (List.mem_filterMap.2 ⟨y, hy, hyn⟩)
  constructor
  · rintro rfl
    have hother : ∀ x ∈ before ++ after, x ≠ i := by
      rintro x hx rfl
      exact (List.nodup_cons.1 (List.nodup_middle.1 hnodup)).1 hx
    refine List.pairwise_append.2 ⟨?_, List.pairwise_cons.2 ⟨fun y hy _ => hlast y hy, ?_⟩, ?_⟩
    · exact List.pairwise_of_forall_mem_list
        fun x hx _ _ he => absurd he (hother x (List.mem_append_left after hx))
    · exact List.pairwise_of_forall_mem_list
        fun x hx _ _ he => absurd he (hother x (List.mem_append_right before hx))
    · exact fun x hx _ _ he => absurd he (hother x (List.mem_append_left after hx))
  · intro hp
    rcases List.mem_append.1 hk with hbefore | hrest
    · exact absurd hi ((List.pairwise_append.1 hp).2.2 k hbefore i List.mem_cons_self rfl)
    · rcases List.mem_cons.1 hrest with he | hka
      · exact he.symm
      · exact absurd hkn (hlast k hka)

theorem Reads.exists_builtFrom (hn : Names read name?) (h : Reads read c is c')
    (hmem : n ∈ is.filterMap name?) : ∃ i v, BuiltFrom read name? c is n i v := by
  induction h with
  | nil => exact absurd hmem List.not_mem_nil
  | @cons c i e is c' h _ ih =>
    by_cases hrest : n ∈ is.filterMap name?
    · obtain ⟨k, v, before, after, b, e', rfl, hb, hk⟩ := ih hrest
      exact ⟨k, v, i :: before, after, b, e', rfl, .cons h hb, hk⟩
    · rw [List.filterMap_cons_some (hn c i e h), List.mem_cons, or_iff_left hrest] at hmem
      exact ⟨i, e.value, [], is, c, e, rfl, .nil, h, hmem.symm, rfl, hrest⟩

/-- The turn of the entry `i` among entries under names of their own: it is read on the catalogue
`b`, which has the final values of the names read before, and the old values of all others. -/
structure Turn (read : EntryReader ι β) (name? : ι → Option String) (c : Catalogue β)
    (before : List ι) (i : ι) (c' b : Catalogue β) (e : Entry β) : Prop where
  reads : Reads read c before b
  read_eq : read b i = .ok e
  bound : c'.get? e.name = some e.value
  get?_of_mem : ∀ n ∈ before.filterMap name?, b.get? n = c'.get? n
  get?_of_not_mem : ∀ n ∉ before.filterMap name?, b.get? n = c.get? n

theorem Reads.exists_turn (hn : Names read name?) {i : ι} (h : Reads read c (is ++ i :: ks) c')
    (hnodup : ((is ++ i :: ks).filterMap name?).Nodup) :
    ∃ b e, Turn read name? c is i c' b e := by
  obtain ⟨b, e, hb, he, hs⟩ := h.exists_of_cons
  rw [List.filterMap_append, List.filterMap_cons_some (hn b i e he), List.nodup_append] at hnodup
  obtain ⟨-, hrest, hdisj⟩ := hnodup
  refine ⟨b, e, hb, he, ?_, ?_, fun n => hb.get?_of_not_mem hn⟩
  · rw [hs.get?_of_not_mem hn (List.nodup_cons.1 hrest).1, Catalogue.get?_insert, if_pos rfl]
  · intro n hbefore
    have hname : e.name ≠ n := (hdisj n hbefore e.name List.mem_cons_self).symm
    have hafter : n ∉ ks.filterMap name? :=
      fun hks => hdisj n hbefore n (List.mem_cons_of_mem e.name hks) rfl
    rw [hs.get?_of_not_mem hn hafter, Catalogue.get?_insert, if_neg hname]

end Names

end Curves.Progress
