import IntervalIndex.Proofs.Packed.Answering
import Mathlib.Data.Set.Basic

namespace IntervalIndex

open Scratch

variable {ν α : Type} {T : PosType}

namespace Span

/-- The positions of a half-open range. A point takes up the position that it sits at. -/
def occupied (s : Span T) : Set (Pos T) :=
  if s.start = s.stop then {s.start} else {x | s.start ≤ x ∧ x < s.stop}

def closedRange (s : Span T) : Set (Pos T) := {x | s.start ≤ x ∧ x ≤ s.stop}

theorem mem_occupied_iff {s : Span T} (hs : s.start ≤ s.stop) {x : Pos T} :
    x ∈ s.occupied ↔ s.start ≤ x ∧ (x < s.stop ∨ x = s.start) := by
  rw [occupied]
  split
  · next hpoint =>
    simp only [Set.mem_singleton_iff, Pos.le_iff, Pos.lt_iff, Pos.ext_iff] at *
    omega
  · next hpoint =>
    simp only [Set.mem_ofPred_eq, Pos.le_iff, Pos.lt_iff, Pos.ext_iff] at *
    omega

theorem overlaps_iff_occupied {s q : Span T} (hs : s.start ≤ s.stop) (hq : q.start ≤ q.stop) :
    s.overlaps q = true ↔ (s.occupied ∩ q.occupied).Nonempty := by
  have hshared : s.overlaps q = true ↔
      s.start ≤ q.start ∧ q.start ∈ s.occupied ∨ q.start ≤ s.start ∧ s.start ∈ q.occupied := by
    rw [mem_occupied_iff hs, mem_occupied_iff hq, overlaps]
    split
    all_goals
      simp only [isPoint_iff, isPoint_eq_false, decide_eq_true_eq, Pos.le_iff, Pos.lt_iff,
        Pos.ext_iff, ne_eq] at *
      omega
  have hstart : ∀ {t : Span T}, t.start ≤ t.stop → t.start ∈ t.occupied := fun ht =>
    (mem_occupied_iff ht).mpr ⟨Int.le_refl _, .inr rfl⟩
  rw [hshared]
  constructor
  · rintro (⟨-, hmem⟩ | ⟨-, hmem⟩)
    · exact ⟨q.start, hmem, hstart hq⟩
    · exact ⟨s.start, hstart hs, hmem⟩
  · rintro ⟨x, hxs, hxq⟩
    rw [mem_occupied_iff hs] at hxs ⊢
    rw [mem_occupied_iff hq] at hxq ⊢
    simp only [Pos.le_iff, Pos.lt_iff, Pos.ext_iff] at *
    omega

theorem intersects_iff_closedRange {s q : Span T} (hs : s.start ≤ s.stop) (hq : q.start ≤ q.stop) :
    s.intersects q = true ↔ (s.closedRange ∩ q.closedRange).Nonempty := by
  rw [intersects, decide_eq_true_eq]
  constructor
  · rintro ⟨hqs, hsq⟩
    rcases Int.le_total s.start.val q.start.val with hle | hle
    · exact ⟨q.start, ⟨hle, hqs⟩, Int.le_refl _, hq⟩
    · exact ⟨s.start, ⟨Int.le_refl _, hs⟩, hle, hsq⟩
  · rintro ⟨x, ⟨hsx, hxs⟩, hqx, hxq⟩
    exact ⟨Int.le_trans hqx hxs, Int.le_trans hsx hxq⟩

theorem contains_iff_closedRange {s q : Span T} (hq : q.start ≤ q.stop) :
    s.contains q = true ↔ q.closedRange ⊆ s.closedRange := by
  rw [contains, decide_eq_true_eq]
  constructor
  · rintro ⟨hstart, hstop⟩ x ⟨hqx, hxq⟩
    exact ⟨Int.le_trans hstart hqx, Int.le_trans hxq hstop⟩
  · intro hsub
    exact ⟨(hsub ⟨Int.le_refl _, hq⟩).1, (hsub ⟨hq, Int.le_refl _⟩).2⟩

end Span

namespace Relation

theorem intersects_of_holds {r : Relation} {s q : Span T} (hq : q.start ≤ q.stop)
    (h : r.holds s q = true) : intersects.holds s q = true := by
  obtain ⟨hstart, hstop⟩ := bounds_of_holds hq h
  exact decide_eq_true ⟨hstop, hstart⟩

theorem overlaps_of_contains {s q : Span T} (hq : q.start < q.stop)
    (h : contains.holds s q = true) : overlaps.holds s q = true := by
  simp only [holds, Span.contains, decide_eq_true_eq] at h
  simp only [holds, Span.overlaps]
  split
  all_goals
    simp only [Span.isPoint_iff, Span.isPoint_eq_false, decide_eq_true_eq, Pos.le_iff, Pos.lt_iff,
      Pos.ext_iff, ne_eq] at *
    omega

end Relation

/-- The values found for a range lie within each other, in the same order. -/
structure Nested (length : Pos T) (hits : Relation → Array α) : Prop where
  overlaps_sublist : (hits .overlaps).toList.Sublist (hits .intersects).toList
  contains_sublist : (hits .contains).toList.Sublist (hits .intersects).toList
  contains_sublist_overlaps : 0 < length.val →
    (hits .contains).toList.Sublist (hits .overlaps).toList

theorem nested_filter (span : α → Span T) {start length : Pos T} {query : Span T}
    (hquery : Span.ofLength start length = .ok query) (out : Array α) (values : List α) :
    Nested length fun r => out ++ values.filter fun v => r.holds (span v) query := by
  have hle := Span.start_le_stop_of_ofLength hquery
  obtain ⟨-, hstop, rfl⟩ := Span.ofLength_eq_ok_iff.mp hquery
  have hval := Pos.add?_eq_some_iff.mp hstop
  have hsublist : ∀ {r r' : Relation},
      (∀ v, r.holds (span v) query = true → r'.holds (span v) query = true) →
      (out ++ values.filter fun v => r.holds (span v) query).toList.Sublist
        (out ++ values.filter fun v => r'.holds (span v) query).toList := by
    intro r r' himp
    simpa using List.monotone_filter_right values himp
  constructor
  · exact hsublist fun _ => Relation.intersects_of_holds hle
  · exact hsublist fun _ => Relation.intersects_of_holds hle
  · intro hpos
    have hlt : query.start < query.stop := by
      rw [Pos.lt_iff]
      omega
    exact hsublist fun _ => Relation.overlaps_of_contains hlt

/-- What a relation says of the positions of a stored span and of a range. -/
def Relation.Relates : Relation → Span T → Span T → Prop
  | overlaps, s, query => (s.occupied ∩ query.occupied).Nonempty
  | intersects, s, query => (s.closedRange ∩ query.closedRange).Nonempty
  | contains, s, query => query.closedRange ⊆ s.closedRange

theorem Relation.matches_iff_relates {s : Span T} (hs : s.start ≤ s.stop)
    {start length stop : Pos T} (hlength : 0 ≤ length.val) (hstop : start.add? length = some stop)
    (r : Relation) : r.matches s start length = true ↔ r.Relates s ⟨start, stop⟩ := by
  have hrange := ofLength_of_add? hlength hstop
  have hquery := Span.start_le_stop_of_ofLength hrange
  rw [Relation.matches_eq_holds, (queryRange_of_ofLength hrange).1]
  cases r with
  | overlaps => exact Span.overlaps_iff_occupied hs hquery
  | intersects => exact Span.intersects_iff_closedRange hs hquery
  | contains => exact Span.contains_iff_closedRange hquery

/-- The three predicates ask whether two spans share a position that both take up, whether they share
one counting their ends, and whether one holds all of the other. So what is found for a range by
one of them, in any tree, lies within what is found by a wider one. -/
theorem relations_by_positions {start length stop : Pos T} (hlength : 0 ≤ length.val)
    (hstop : start.add? length = some stop) :
    (∀ s : Span T, s.start ≤ s.stop →
      let query : Span T := ⟨start, stop⟩
      (Predicate.overlaps s start length = true ↔ (s.occupied ∩ query.occupied).Nonempty) ∧
      (Predicate.intersects s start length = true ↔
        (s.closedRange ∩ query.closedRange).Nonempty) ∧
      (Predicate.contains s start length = true ↔ query.closedRange ⊆ s.closedRange) ∧
      ∀ r : Relation, r.matches s start length = true ↔ r.Relates s query) ∧
    (∀ (t : PackedTree T α) (pool : Pool Nat), pool.Clean → ∃ hits : Relation → Array α,
      (∀ r, (t.find r start length pool).1 = .ok (hits r)) ∧ Nested length hits) ∧
    ∀ (t : LinkTree ν α) (values : List α), t.values = .ok values → ∀ (span : α → Span T)
      (out : Array α) (pool : Option (Pool ν)), (∀ p ∈ pool, p.Clean) →
      Nested length fun r => (t.collect start length
        (.ofPure fun v => r.matches (span v) start length) false out () pool).1.out := by
  have hquery := ofLength_of_add? hlength hstop
  refine ⟨fun s hs => ?_, fun t pool hpool => ?_, fun t values hvalues span out pool hpool => ?_⟩
  · have hrelates := Relation.matches_iff_relates hs hlength hstop
    exact ⟨hrelates .overlaps, hrelates .intersects, hrelates .contains, hrelates⟩
  · obtain ⟨values, hvalues⟩ := t.exists_values
    refine ⟨_, fun r => PackedTree.matching_fst hvalues hquery r false hpool, ?_⟩
    simpa [accepted] using nested_filter t.span hquery #[] values
  · have hrange := (queryRange_of_ofLength hquery).1
    simp only [LinkTree.collect_fst hvalues hquery _ _ _ _ hpool, Collected.ofValues_ofPure,
      Relation.matches_eq_holds, hrange]
    simpa [accepted] using nested_filter span hquery out values

theorem relations_by_positions_touching :
    let start : Pos .u8 := .clamp 254
    let length : Pos .u8 := .clamp 1
    let s : Span .u8 := .clamp 252 254
    let query : Span .u8 := .clamp 254 255
    ¬ (s.occupied ∩ query.occupied).Nonempty ∧ (s.closedRange ∩ query.closedRange).Nonempty ∧
      ∃ t, PackedTree.ofSorted id [s, query] = .ok t ∧ ∃ hits : Relation → Array (Span .u8),
        (∀ r, (t.find r start length .new).1 = .ok (hits r)) ∧
        (hits .contains).toList.Sublist (hits .overlaps).toList := by
  intro start length s query
  have hstop : start.add? length = some query.stop := by decide
  obtain ⟨hpredicates, htrees, -⟩ :=
    relations_by_positions (ν := Nat) (α := Span .u8) (by decide) hstop
  obtain ⟨hoverlaps, hintersects, -, -⟩ := hpredicates s (by decide)
  refine ⟨fun hshared => absurd (hoverlaps.mpr hshared) (by decide), hintersects.mp (by decide), ?_⟩
  obtain ⟨t, ht, -⟩ := @PackedTree.ofSorted_ok .u8 _ id [s, query] (by decide) (by decide)
  obtain ⟨hits, hfind, hnested⟩ := htrees t .new (Pool.clean_withLimits default)
  exact ⟨t, ht, hits, hfind, hnested.contains_sublist_overlaps (by decide)⟩

end IntervalIndex
