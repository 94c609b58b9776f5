import Curves.Proofs.Catalogue.Repetition

namespace Curves

namespace Progress

variable {ι β : Type} {read : EntryReader ι β} {p q r : Progress β} {pending : List ι}
  {rounds : List (List ι)}

/-- The rounds of loading, each with the entries that it leaves. The last round leaves none, or all
that were pending before it. -/
inductive Attempts (read : EntryReader ι β) :
    Progress β → List ι → List (List ι) → Progress β → Prop
  | complete {p q : Progress β} {pending : List ι} (h : round read p pending = (q, [])) :
      Attempts read p pending [[]] { q with error? := none }
  | stuck {p q : Progress β} {pending : List ι} (h : round read p pending = (q, pending))
      (hne : pending ≠ []) : Attempts read p pending [pending] q
  | again {p q r : Progress β} {pending left : List ι} {rounds : List (List ι)}
      (h : round read p pending = (q, left)) (hne : left ≠ []) (hleft : left ≠ pending)
      (hs : Attempts read q left rounds r) : Attempts read p pending (left :: rounds) r

theorem sublist_of_round {left : List ι} (h : round read p pending = (q, left)) :
    left.Sublist pending := by
  obtain ⟨now, hnow⟩ := exists_isRound read p pending
  rw [h] at hnow
  exact hnow.later_sublist

theorem length_lt_of_round {left : List ι} (h : round read p pending = (q, left))
    (hleft : left ≠ pending) : left.length < pending.length := by
  have hsub := sublist_of_round h
  exact lt_of_le_of_ne hsub.length_le fun hlen => hleft (hsub.eq_of_length hlen)

theorem exists_attempts (read : EntryReader ι β) (p : Progress β) (pending : List ι) :
    ∃ rounds, Attempts read p pending rounds (readAnyOrder read p pending) := by
  induction p, pending using readAnyOrder.induct read with
  | case1 p pending q failed hr he =>
    rw [readAnyOrder_eq, hr, if_pos he]
    rw [List.isEmpty_iff.1 he] at hr
    exact ⟨[[]], .complete hr⟩
  | case2 p pending q failed hr he hl =>
    rw [readAnyOrder_eq, hr, if_neg he, if_pos hl]
    -- as many entries as before are the same entries
    obtain rfl := (sublist_of_round hr).eq_of_length hl
    refine ⟨[failed], .stuck hr ?_⟩
    rintro rfl
    exact he rfl
  | case3 p pending q failed hr he hl ih =>
    rw [readAnyOrder_eq, hr, if_neg he, if_neg hl]
    obtain ⟨rounds, h⟩ := ih
    refine ⟨failed :: rounds, .again hr ?_ ?_ h⟩
    · rintro rfl
      exact he rfl
    · rintro rfl
      exact hl rfl

theorem Attempts.unique {others : List (List ι)} (h : Attempts read p pending rounds q)
    (h' : Attempts read p pending others r) : others = rounds ∧ r = q := by
  induction h generalizing others with
  | complete h =>
    cases h' with
    | complete h' =>
      cases h.symm.trans h'
      exact ⟨rfl, rfl⟩
    | stuck h' hne =>
      cases h.symm.trans h'
      exact absurd rfl hne
    | again h' hne hleft hs =>
      cases h.symm.trans h'
      exact absurd rfl hne
  | stuck h hne =>
    cases h' with
    | complete h' =>
      cases h.symm.trans h'
      exact absurd rfl hne
    | stuck h' hne' =>
      cases h.symm.trans h'
      exact ⟨rfl, rfl⟩
    | again h' hne' hleft hs =>
      cases h.symm.trans h'
      exact absurd rfl hleft
  | again h hne hleft hs ih =>
    cases h' with
    | complete h' =>
      cases h.symm.trans h'
      exact absurd rfl hne
    | stuck h' hne' =>
      cases h.symm.trans h'
      exact absurd rfl hleft
    | again h' hne' hleft' hs' =>
      cases h.symm.trans h'
      obtain ⟨rfl, rfl⟩ := ih hs'
      exact ⟨rfl, rfl⟩

theorem Attempts.length_le (h : Attempts read p pending rounds q) :
    rounds.length ≤ max 1 pending.length := by
  induction h with
  | complete h => exact le_max_left 1 _
  | stuck h hne => exact le_max_left 1 _
  | again h hne hleft _ ih =>
    have hlt := length_lt_of_round h hleft
    have hpos := List.length_pos_iff.2 hne
    rw [List.length_cons]
    omega

theorem Attempts.isChain_sublist (h : Attempts read p pending rounds q) :
    (pending :: rounds).IsChain fun before after => after.Sublist before := by
  induction h with
  | complete h => exact .cons_cons (List.nil_sublist _) (.singleton _)
  | stuck h hne => exact .cons_cons (List.Sublist.refl _) (.singleton _)
  | again h hne hleft _ ih => exact .cons_cons (sublist_of_round h) ih

theorem Attempts.forall_sublist (h : Attempts read p pending rounds q) :
    ∀ left ∈ rounds, left.Sublist pending := by
  induction h with
  | complete h => exact List.forall_mem_singleton.2 (List.nil_sublist _)
  | stuck h hne => exact List.forall_mem_singleton.2 (List.Sublist.refl _)
  | again h hne hleft _ ih =>
    have hsub := sublist_of_round h
    exact List.forall_mem_cons.2 ⟨hsub, fun left hmem => (ih left hmem).trans hsub⟩

theorem Attempts.ne_nil (h : Attempts read p pending rounds q) : rounds ≠ [] := by
  cases h <;> exact List.cons_ne_nil _ _

theorem Attempts.isChain_length (h : Attempts read p pending rounds q) :
    (pending :: rounds.dropLast).IsChain fun before after => after.length < before.length := by
  induction h with
  | complete h => exact .singleton _
  | stuck h hne => exact .singleton _
  | again h hne hleft hs ih =>
    rw [List.dropLast_cons_of_ne_nil hs.ne_nil]
    exact .cons_cons (length_lt_of_round h hleft) ih

theorem Attempts.settled (h : Attempts read p pending rounds q) :
    ∃ left, rounds.getLast? = some left ∧ Settled read q left := by
  induction h with
  | complete h => exact ⟨[], rfl, List.forall_mem_nil _, rfl⟩
  | @stuck p q pending h hne =>
    have hs := settled_round (p := p) hne (by rw [h])
    rw [h] at hs
    exact ⟨pending, rfl, hs⟩
  | again h hne hleft hs ih =>
    obtain ⟨left, hlast, hsettled⟩ := ih
    refine ⟨left, ?_, hsettled⟩
    rw [List.getLast?_cons, hlast]
    rfl

end Progress

namespace Catalogue

open Definition (read)
open Progress (Attempts)

theorem loadOne_of_error {c : Catalogue (Curve Float)} {j : Json} {error : LoadError}
    (h : Definition.read c j = .error error) : Loader.curves.loadOne c j = ⟨c, [], some error⟩ := by
  have hr : Loader.curves.read (Progress.start c).catalogue j = .error error := h
  rw [Loader.loadOne, Progress.readOne, hr]
  rfl

/-- Loading ends after at most as many rounds as there are entries, or a single one for none. Each
round leaves entries that were pending before it, in their order, and all rounds but the last leave
fewer. If it ends with an error, every entry that is left fails again and changes nothing. -/
theorem loadAll_ends (c : Catalogue (Curve Float)) (js : List Json) :
    ∃ rounds, (∀ others q, Attempts (readAt js) (.start c) (List.finRange js.length) others q ↔
        others = rounds ∧ q = Loader.curves.loadAll c js) ∧
      rounds.length ≤ max 1 js.length ∧
      (List.finRange js.length :: rounds).IsChain (fun before after => after.Sublist before) ∧
      (∀ left ∈ rounds, left.Pairwise (· < ·)) ∧
      (List.finRange js.length :: rounds.dropLast).IsChain
        (fun before after => after.length < before.length) ∧
      ((Loader.curves.loadAll c js).error? ≠ none →
        ∃ left, rounds.getLast? = some left ∧ left ≠ [] ∧ ∀ i ∈ left, ∃ error,
          Loader.curves.loadOne (Loader.curves.loadAll c js).catalogue (js.get i) =
            ⟨(Loader.curves.loadAll c js).catalogue, [], some error⟩) := by
  obtain ⟨rounds, h⟩ := Progress.exists_attempts (readAt js) (.start c) (List.finRange js.length)
  rw [← loadAll_eq_readAt] at h
  refine ⟨rounds, ?_, ?_, h.isChain_sublist, ?_, h.isChain_length, ?_⟩
  · intro others q
    constructor
    · exact h.unique
    · rintro ⟨rfl, rfl⟩
      exact h
  · have hlen := h.length_le
    rwa [List.length_finRange] at hlen
  · intro left hleft
    exact (List.pairwise_lt_finRange js.length).sublist (h.forall_sublist left hleft)
  · intro herror
    obtain ⟨left, hlast, hs⟩ := h.settled
    refine ⟨left, hlast, fun hnil => herror (hs.error_none_iff.2 hnil), ?_⟩
    intro i hi
    obtain ⟨error, hr⟩ := hs.fails i hi
    exact ⟨error, loadOne_of_error hr⟩

section Cycle

def wrappedBase : Json :=
  Definition.wrapperEntry "base" "level"

def cyclicEntries : List Json :=
  [wrappedLevel, wrappedBase]

theorem read_wrappedBase_empty : read .empty wrappedBase = .error (.unknownName "level") := by
  rw [wrappedBase, Definition.read_wrapperEntry, get, get?, empty, Std.ExtTreeMap.getElem?_empty]
  rfl

theorem attempts_cyclicEntries : Attempts (readAt cyclicEntries) (.start .empty)
    (List.finRange cyclicEntries.length) [List.finRange cyclicEntries.length]
    ⟨.empty, [], some (.unknownName "level")⟩ := by
  have hlevel : readAt cyclicEntries .empty ⟨0, Nat.two_pos⟩ = .error (.unknownName "base") :=
    read_wrappedLevel_empty
  have hbase : readAt cyclicEntries .empty ⟨1, Nat.one_lt_two⟩ = .error (.unknownName "level") :=
    read_wrappedBase_empty
  have hindices : List.finRange cyclicEntries.length =
      [⟨0, Nat.two_pos⟩, ⟨1, Nat.one_lt_two⟩] := rfl
  rw [hindices]
  apply Attempts.stuck _ (List.cons_ne_nil _ _)
  rw [Progress.round_cons_error hlevel, Progress.round_cons_error hbase]
  rfl

theorem loadAll_ends_cyclicEntries :
    Loader.curves.loadAll .empty cyclicEntries = ⟨.empty, [], some (.unknownName "level")⟩ ∧
      ∀ i ∈ List.finRange cyclicEntries.length, ∃ error,
        Loader.curves.loadOne .empty (cyclicEntries.get i) = ⟨.empty, [], some error⟩ := by
  obtain ⟨rounds, hrounds, -, -, -, -, hfails⟩ := loadAll_ends .empty cyclicEntries
  obtain ⟨rfl, hq⟩ := (hrounds _ _).1 attempts_cyclicEntries
  rw [← hq] at hfails
  obtain ⟨left, hlast, -, hleft⟩ := hfails (Option.some_ne_none _)
  obtain rfl := Option.some.inj hlast
  exact ⟨hq.symm, hleft⟩

end Cycle

end Catalogue
end Curves
