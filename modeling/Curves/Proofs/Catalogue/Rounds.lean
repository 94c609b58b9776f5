import Curves.Catalogue.Loader

namespace Curves.Progress

variable {ι β : Type} {read : EntryReader ι β}

theorem round_cons_ok {p : Progress β} {i : ι} {e : Entry β} (h : read p.catalogue i = .ok e)
    (is : List ι) : round read p (i :: is) = round read (p.add e) is := by
  rw [round, h]

theorem round_cons_error {p : Progress β} {i : ι} {error : LoadError}
    (h : read p.catalogue i = .error error) (is : List ι) :
    round read p (i :: is) =
      ((round read (p.fail error) is).1, i :: (round read (p.fail error) is).2) := by
  rw [round, h]

/-- A relation between the catalogue and the pending entries that survives the reading of any one
of them. -/
def Stable (read : EntryReader ι β) (I : Catalogue β → List ι → Prop) : Prop :=
  ∀ c before i after e, I c (before ++ i :: after) → read c i = .ok e →
    I (c.insert e.name e.value) (before ++ after)

/-- The entries in front are those of the round that have failed already. -/
theorem round_stable {I : Catalogue β → List ι → Prop} (hI : Stable read I) (p : Progress β)
    (before is : List ι) (h : I p.catalogue (before ++ is)) :
    I (round read p is).1.catalogue (before ++ (round read p is).2) := by
  induction is generalizing p before with
  | nil => exact h
  | cons i is ih =>
    cases hr : read p.catalogue i with
    | ok e =>
      rw [round_cons_ok hr]
      exact ih (p.add e) before (hI _ _ _ _ _ h hr)
    | error error =>
      rw [round_cons_error hr]
      rw [List.append_cons] at h
      have hi := ih (p.fail error) (before ++ [i]) h
      rw [← List.append_cons] at hi
      exact hi

theorem fails_of_length_round {p : Progress β} {is : List ι}
    (h : (round read p is).2.length = is.length) :
    ∀ i ∈ is, ∃ error, read p.catalogue i = .error error := by
  induction is generalizing p with
  | nil => exact fun i hi => (List.not_mem_nil hi).elim
  | cons i is ih =>
    cases hr : read p.catalogue i with
    | ok e =>
      rw [round_cons_ok hr, List.length_cons] at h
      have hle := length_round_le read (p.add e) is
      omega
    | error error =>
      rw [round_cons_error hr, List.length_cons, List.length_cons, Nat.add_right_cancel_iff] at h
      exact List.forall_mem_cons.2 ⟨⟨error, hr⟩, ih (p := p.fail error) h⟩

theorem round_of_fails {p : Progress β} {is : List ι}
    (h : ∀ i ∈ is, ∃ error, read p.catalogue i = .error error) :
    (round read p is).1.catalogue = p.catalogue ∧ (round read p is).2 = is := by
  induction is generalizing p with
  | nil => exact ⟨rfl, rfl⟩
  | cons i is ih =>
    obtain ⟨⟨error, hr⟩, hs⟩ := List.forall_mem_cons.1 h
    obtain ⟨hc, hf⟩ := ih (p := p.fail error) hs
    rw [round_cons_error hr]
    exact ⟨hc, congrArg (i :: ·) hf⟩

def readVia {κ : Type} (read : EntryReader ι β) (f : κ → ι) : EntryReader κ β :=
  fun c k => read c (f k)

theorem round_map {κ : Type} (f : κ → ι) (p : Progress β) (ks : List κ) :
    round read p (ks.map f) =
      ((round (readVia read f) p ks).1, (round (readVia read f) p ks).2.map f) := by
  induction ks generalizing p with
  | nil => rfl
  | cons k ks ih =>
    cases hr : read p.catalogue (f k) with
    | ok e =>
      have hk : readVia read f p.catalogue k = .ok e := hr
      rw [List.map_cons, round_cons_ok hr, round_cons_ok hk, ih]
    | error error =>
      have hk : readVia read f p.catalogue k = .error error := hr
      rw [List.map_cons, round_cons_error hr, round_cons_error hk, ih, List.map_cons]

def errorAt (read : EntryReader ι β) (c : Catalogue β) (i : ι) : Option LoadError :=
  ((start c).readOne read i).error?

theorem errorAt_of_error {c : Catalogue β} {i : ι} {error : LoadError}
    (h : read c i = .error error) : errorAt read c i = some error := by
  rw [errorAt, readOne, start, h]
  rfl

theorem error?_round_of_fails {p : Progress β} {is : List ι} (hne : is ≠ [])
    (h : ∀ i ∈ is, ∃ error, read p.catalogue i = .error error) :
    (round read p is).1.error? = is.getLast?.bind (errorAt read p.catalogue) := by
  induction is generalizing p with
  | nil => exact (hne rfl).elim
  | cons i is ih =>
    obtain ⟨⟨error, hr⟩, hs⟩ := List.forall_mem_cons.1 h
    rw [round_cons_error hr]
    cases is with
    | nil => exact (errorAt_of_error hr).symm
    | cons k is =>
      rw [List.getLast?_cons_cons]
      exact ih (p := p.fail error) (List.cons_ne_nil k is) hs

/-- No entry that is left can be read any more, and the last of them accounts for the error. -/
structure Settled (read : EntryReader ι β) (p : Progress β) (left : List ι) : Prop where
  fails : ∀ i ∈ left, ∃ error, read p.catalogue i = .error error
  error : p.error? = left.getLast?.bind (errorAt read p.catalogue)

theorem Settled.error_none_iff {p : Progress β} {left : List ι} (h : Settled read p left) :
    p.error? = none ↔ left = [] := by
  rw [h.error]
  constructor
  · intro hn
    cases hl : left.getLast? with
    | none => exact List.getLast?_eq_none_iff.1 hl
    | some i =>
      obtain ⟨error, he⟩ := h.fails i (List.mem_of_getLast? hl)
      rw [hl, Option.bind_some, errorAt_of_error he] at hn
      cases hn
  · rintro rfl
    rfl

theorem settled_round {p : Progress β} {is : List ι} (hne : is ≠ [])
    (h : (round read p is).2.length = is.length) : Settled read (round read p is).1 is := by
  have hs := fails_of_length_round h
  have hc := (round_of_fails hs).1
  refine ⟨?_, ?_⟩
  · rw [hc]
    exact hs
  · rw [hc]
    exact error?_round_of_fails hne hs

theorem readAnyOrder_eq (read : EntryReader ι β) (p : Progress β) (pending : List ι) :
    readAnyOrder read p pending =
      if (round read p pending).2.isEmpty then { (round read p pending).1 with error? := none }
      else if (round read p pending).2.length = pending.length then (round read p pending).1
      else readAnyOrder read (round read p pending).1 (round read p pending).2 := by
  rw [readAnyOrder]

theorem readAnyOrder_map {κ : Type} (f : κ → ι) (p : Progress β) (ks : List κ) :
    readAnyOrder read p (ks.map f) = readAnyOrder (readVia read f) p ks := by
  induction p, ks using readAnyOrder.induct (readVia read f) with
  | case1 p ks q failed hr he =>
    rw [readAnyOrder_eq read, readAnyOrder_eq (readVia read f), round_map, hr, List.isEmpty_map]
    rw [if_pos he, if_pos he]
  | case2 p ks q failed hr he hl =>
    rw [readAnyOrder_eq read, readAnyOrder_eq (readVia read f), round_map, hr, List.isEmpty_map,
      List.length_map, List.length_map]
    rw [if_neg he, if_neg he, if_pos hl, if_pos hl]
  | case3 p ks q failed hr he hl ih =>
    rw [readAnyOrder_eq read, readAnyOrder_eq (readVia read f), round_map, hr, List.isEmpty_map,
      List.length_map, List.length_map]
    rw [if_neg he, if_neg he, if_neg hl, if_neg hl, ih]

/-- Rounds keep what reading one entry keeps, and they end where nothing more can be read. -/
theorem readAnyOrder_settled {I : Catalogue β → List ι → Prop} (hI : Stable read I)
    (p : Progress β) (pending : List ι) (h : I p.catalogue pending) :
    ∃ left, I (readAnyOrder read p pending).catalogue left ∧
      Settled read (readAnyOrder read p pending) left := by
  induction p, pending using readAnyOrder.induct read with
  | case1 p pending q failed hr he =>
    have hi := round_stable hI p [] pending h
    rw [readAnyOrder_eq, hr, if_pos he]
    rw [hr, List.isEmpty_iff.1 he] at hi
    exact ⟨[], hi, fun i hi => (List.not_mem_nil hi).elim, rfl⟩
  | case2 p pending q failed hr he hl =>
    have hne : pending ≠ [] := by
      intro hn
      rw [hn, List.length_nil, List.length_eq_zero_iff] at hl
      exact he (List.isEmpty_iff.2 hl)
    have hl' : (round read p pending).2.length = pending.length := by rw [hr, hl]
    have hs := settled_round hne hl'
    have hc := (round_of_fails (fails_of_length_round hl')).1
    rw [hr] at hs hc
    rw [readAnyOrder_eq, hr, if_neg he, if_pos hl]
    refine ⟨pending, ?_, hs⟩
    rw [hc]
    exact h
  | case3 p pending q failed hr he hl ih =>
    have hi := round_stable hI p [] pending h
    rw [hr] at hi
    rw [readAnyOrder_eq, hr, if_neg he, if_neg hl]
    exact ih hi

end Curves.Progress
