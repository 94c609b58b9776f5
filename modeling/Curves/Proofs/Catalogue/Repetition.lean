import Curves.Proofs.Catalogue.Readings

namespace Curves.Catalogue

open Definition (decode name? read)
open Progress (BuiltFrom IsRound Names Rounds names_read readVia)

def readAt (js : List Json) : EntryReader (Fin js.length) (Curve Float) :=
  readVia read fun i => js[i]

def nameAt? (js : List Json) (i : Fin js.length) : Option String :=
  name? js[i]

/-- No entry of the name stands after the one at this position. -/
structure IsLast (js : List Json) (n : String) (last : Fin js.length) : Prop where
  name : nameAt? js last = some n
  later : ∀ k, last < k → nameAt? js k ≠ some n

variable {c a : Catalogue (Curve Float)} {js : List Json} {n : String} {last : Fin js.length}
  {rounds : List (List (Fin js.length))}

theorem names_readAt : Names (readAt js) (nameAt? js) :=
  fun c i e h => names_read c js[i] e h

theorem loadAll_eq_readAt (c : Catalogue (Curve Float)) (js : List Json) :
    Loader.curves.loadAll c js =
      Progress.readAnyOrder (readAt js) (.start c) (List.finRange js.length) := by
  rw [readAt, ← Progress.readAnyOrder_map]
  have hmap : (List.finRange js.length).map (fun i => js[i]) = js := List.map_getElem_finRange js
  rw [hmap]
  rfl

/-- Within a round the entries are read as they stand, so only a later round can come after the last
entry of a name. -/
theorem IsLast.pairwise_flatten_iff (hlast : IsLast js n last)
    (h : Rounds (readAt js) c (List.finRange js.length) rounds a) :
    (rounds.flatten.Pairwise fun i k => i = last → nameAt? js k ≠ some n) ↔
      rounds.Pairwise fun now later => last ∈ now → ∀ k ∈ later, nameAt? js k ≠ some n := by
  have hround : ∀ now ∈ rounds, now.Pairwise fun i k => i = last → nameAt? js k ≠ some n := by
    intro now hnow
    have hlt := (List.pairwise_lt_finRange js.length).sublist (h.forall_sublist now hnow)
    refine hlt.imp fun hik he => ?_
    rw [he] at hik
    exact hlast.later _ hik
  rw [List.pairwise_flatten, and_iff_right hround]
  refine List.Pairwise.iff fun now later => ?_
  exact ⟨fun h hnow k hk => h last hnow k hk rfl, fun h i hi k hk he => h (he ▸ hi) k hk⟩

/-- Loading that succeeds goes through one sequence of rounds only. The value of a name is built from
its last entry exactly if no entry of that name is read in a round after it. -/
theorem loadAll_last_iff (c : Catalogue (Curve Float)) (js : List Json)
    (hok : (Loader.curves.loadAll c js).error? = none) :
    ∃ rounds, (∀ others a, Rounds (readAt js) c (List.finRange js.length) others a ↔
        others = rounds ∧ a = (Loader.curves.loadAll c js).catalogue) ∧
      ∀ n last, IsLast js n last → ∃ i f,
        BuiltFrom (readAt js) (nameAt? js) c rounds.flatten n i f ∧
        (Loader.curves.loadAll c js).catalogue.get? n = some f ∧
        (i = last ↔
          rounds.Pairwise fun now later => last ∈ now → ∀ k ∈ later, nameAt? js k ≠ some n) := by
  rw [loadAll_eq_readAt] at hok ⊢
  obtain ⟨rounds, h⟩ := Progress.exists_rounds (.start c) _ hok
  refine ⟨rounds, fun others a => ⟨h.unique, ?_⟩, fun n last hlast => ?_⟩
  · rintro ⟨rfl, rfl⟩
    exact h
  have hmem : last ∈ rounds.flatten := h.perm.mem_iff.2 (List.mem_finRange last)
  have hnodup : rounds.flatten.Nodup := h.perm.nodup_iff.2 (List.nodup_finRange js.length)
  obtain ⟨i, f, hf⟩ := h.reads.exists_builtFrom names_readAt
    (List.mem_filterMap.2 ⟨last, hmem, hlast.name⟩)
  refine ⟨i, f, hf, hf.get?_eq names_readAt h.reads, ?_⟩
  rw [hf.eq_iff_pairwise names_readAt hnodup hmem hlast.name, hlast.pairwise_flatten_iff h]

section Level

def wrappedLevel : Json :=
  Definition.wrapperEntry "level" "base"

def flatLevel : Json :=
  Definition.constantEntry "level" 1

def base : Json :=
  Definition.constantEntry "base" 2

/-- The first entry of the name `level` needs an entry that comes after the second one. -/
def repeatedEntries : List Json :=
  [wrappedLevel, flatLevel, base]

def flatCurve : Curve Float :=
  .polynomial ⟨[Float.ofInt 1], 0⟩

def baseCurve : Curve Float :=
  .polynomial ⟨[Float.ofInt 2], 0⟩

theorem read_flatLevel (c : Catalogue (Curve Float)) :
    read c flatLevel = .ok ⟨"level", flatCurve, []⟩ :=
  Definition.read_constantEntry c "level" 1

theorem read_base (c : Catalogue (Curve Float)) : read c base = .ok ⟨"base", baseCurve, []⟩ :=
  Definition.read_constantEntry c "base" 2

theorem read_wrappedLevel_empty : read .empty wrappedLevel = .error (.unknownName "base") := by
  rw [wrappedLevel, Definition.read_wrapperEntry, get, get?, empty, Std.ExtTreeMap.getElem?_empty]
  rfl

theorem read_wrappedLevel {f : Curve Float} (h : c.get? "base" = some f) :
    read c wrappedLevel = .ok ⟨"level", .affine .identity f, []⟩ := by
  rw [wrappedLevel, Definition.read_wrapperEntry, get_eq_ok_iff.2 h]
  rfl

theorem rounds_repeatedEntries :
    Rounds read .empty repeatedEntries [[flatLevel, base], [wrappedLevel]]
      (((Catalogue.empty.insert "level" flatCurve).insert "base" baseCurve).insert "level"
        (.affine .identity baseCurve)) := by
  refine .next (.failure read_wrappedLevel_empty
    (.success (read_flatLevel _) (.success (read_base _) .nil))) (List.cons_ne_nil _ _) ?_
  refine .next (.success (read_wrappedLevel ?_) .nil) (List.cons_ne_nil _ _) .done
  rw [get?_insert, if_pos rfl]

theorem loadAll_last_iff_repeatedEntries :
    (Loader.curves.loadAll .empty repeatedEntries).error? = none ∧
      ∃ rounds, (∀ others a,
        Rounds (readAt repeatedEntries) .empty (List.finRange repeatedEntries.length) others a ↔
          others = rounds ∧ a = (Loader.curves.loadAll .empty repeatedEntries).catalogue) ∧
      ∀ n last, IsLast repeatedEntries n last → ∃ i f,
        BuiltFrom (readAt repeatedEntries) (nameAt? repeatedEntries) .empty rounds.flatten n i f ∧
        (Loader.curves.loadAll .empty repeatedEntries).catalogue.get? n = some f ∧
        (i = last ↔ rounds.Pairwise fun now later =>
          last ∈ now → ∀ k ∈ later, nameAt? repeatedEntries k ≠ some n) := by
  have hok := (rounds_repeatedEntries.readAnyOrder_ok (p := .start .empty)).1
  exact ⟨hok, loadAll_last_iff .empty repeatedEntries hok⟩

/-- The last entry of the name gives the flat curve, whatever is known, but the wrapped one is
bound. -/
theorem loadAll_repeatedEntries_overwritten :
    (Loader.curves.loadAll .empty repeatedEntries).error? = none ∧
      IsLast repeatedEntries "level" ⟨1, by decide⟩ ∧
      (∀ c, read c repeatedEntries[1] = .ok ⟨"level", flatCurve, []⟩) ∧
      (Loader.curves.loadAll .empty repeatedEntries).catalogue.get? "level" =
        some (.affine .identity baseCurve) ∧
      (Loader.curves.loadAll .empty repeatedEntries).catalogue.get? "level" ≠ some flatCurve := by
  obtain ⟨hok, hc⟩ := rounds_repeatedEntries.readAnyOrder_ok (p := .start .empty)
  have hlevel : (Loader.curves.loadAll .empty repeatedEntries).catalogue.get? "level" =
      some (.affine .identity baseCurve) := by
    refine (congrArg (get? · "level") hc).trans ?_
    rw [get?_insert, if_pos rfl]
  refine ⟨hok, ⟨rfl, ?_⟩, read_flatLevel, hlevel, ?_⟩
  · rintro ⟨k, hk⟩ hlt
    have hk2 : k = 2 := by
      have hlen : k < 3 := hk
      have hpos : 1 < k := hlt
      omega
    subst hk2
    have hname : nameAt? repeatedEntries ⟨2, hk⟩ = some "base" := rfl
    rw [hname]
    decide
  · rw [hlevel]
    intro he
    cases he

end Level

end Curves.Catalogue
