import IntervalIndex.Proofs.Packed.GreatestEnd

namespace IntervalIndex.PackedTree

open Scratch

variable {T : PosType} {α : Type} {t : PackedTree T α} {values : List α} {start length : Pos T}
  {query : Span T} {pool : Pool Nat}

theorem relationTest_eq (hquery : Span.ofLength start length = .ok query) (r : Relation) :
    t.relationTest r start length = .ofPure fun v => r.holds (t.span v) query := by
  obtain ⟨rfl, -⟩ := queryRange_of_ofLength hquery
  simp only [relationTest, Relation.matches_eq_holds]

theorem matching_fst (hvalues : t.toLinkTree.values = .ok values)
    (hquery : Span.ofLength start length = .ok query) (r : Relation) (firstOnly : Bool)
    (hpool : pool.Clean) : (t.matching r start length firstOnly pool).1 =
      .ok (accepted (fun v => r.holds (t.span v) query) firstOnly values).toArray := by
  have hcollect := LinkTree.collect_fst hvalues hquery (t.relationTest r start length) firstOnly
    #[] () hpool.of_mem_some
  rw [relationTest_eq hquery, Collected.ofValues_ofPure] at hcollect
  simp only [matching, collect, relationTest_eq hquery, hcollect]
  simp [Except.map]

theorem Holds.find_fst (h : t.Holds values) (hquery : Span.ofLength start length = .ok query)
    (r : Relation) (hpool : pool.Clean) : (t.find r start length pool).1 =
      .ok (values.filter fun v => r.holds (t.span v) query).toArray :=
  matching_fst h.values_eq hquery r false hpool

theorem Holds.firstOverlapping_fst (h : t.Holds values)
    (hquery : Span.ofLength start length = .ok query) (hpool : pool.Clean) :
    (t.firstOverlapping start length pool).1 =
      .ok (values.filter fun v => Relation.overlaps.holds (t.span v) query).head? := by
  change ((t.matching .overlaps start length true pool).1.map Array.back?) = _
  rw [matching_fst h.values_eq hquery .overlaps true hpool, accepted, if_pos rfl]
  cases values.filter _ <;> simp [Except.map]

theorem Holds.has_fst (h : t.Holds values)
    (hsorted : values.Pairwise fun v w => (t.span v).start ≤ (t.span w).start)
    (hquery : Span.ofLength start length = .ok query) (r : Relation) (hpool : pool.Clean) :
    (t.has r start length pool).1 = .ok (values.any fun v => r.holds (t.span v) query) := by
  have hends : ∀ slot ∈ t.toLinkTree.unfold.inOrder, t.toLinkTree.EndBounds t.span slot :=
    fun slot hs => h.endBounds hs
  obtain ⟨rfl, hlength⟩ := queryRange_of_ofLength hquery
  simp only [← Relation.matches_eq_holds]
  exact LinkTree.any_eq_any h.values_eq hsorted hends hquery
    (fun v hv => Relation.bounds_of_matches hlength hv) hpool.of_mem_some

/-- A tree built from any values answers each query as a filter of the values does, in order of
starts. Sorted values keep their own order. -/
theorem queries_of_build (span : α → Span T) (values : List α)
    (hvalid : ∀ v ∈ values, (span v).start ≤ (span v).stop) :
    (∀ order : StartSort span, ∃ t, ofListBy order values = .ok t ∧
      ∀ start length stop : Pos T, 0 ≤ length.val →
      start.add? length = some stop → ∀ pool : Pool Nat, pool.Clean →
      (∀ r : Relation, ∃ hits found, (t.find r start length pool).1 = .ok hits ∧
        hits.toList.Perm (values.filter fun v => r.holds (span v) ⟨start, stop⟩) ∧
        (hits.toList.Pairwise fun v w => (span v).start ≤ (span w).start) ∧
        (t.has r start length pool).1 = .ok found ∧
        (found = true ↔ ∃ v ∈ values, r.holds (span v) ⟨start, stop⟩ = true)) ∧
      ∃ hits, (t.find .overlaps start length pool).1 = .ok hits ∧
        (t.firstOverlapping start length pool).1 = .ok hits[0]?) ∧
    ((values.Pairwise fun v w => (span v).start ≤ (span w).start) →
      ∃ t, ofSorted span values = .ok t ∧ ∀ start length stop : Pos T, 0 ≤ length.val →
        start.add? length = some stop → ∀ pool : Pool Nat, pool.Clean → ∀ r : Relation,
        (t.find r start length pool).1 =
          .ok (values.filter fun v => r.holds (span v) ⟨start, stop⟩).toArray) := by
  constructor
  · intro order
    obtain ⟨t, ht, rfl, hholds⟩ := ofListBy_ok order hvalid
    have hperm := order.perm values
    have hsorted := order.pairwise values
    refine ⟨t, ht, fun start length stop hlength hstop pool hpool => ⟨fun r => ?_, ?_⟩⟩
    · have hquery := ofLength_of_add? hlength hstop
      refine ⟨_, _, hholds.find_fst hquery r hpool, hperm.filter _, hsorted.filter _,
        hholds.has_fst hsorted hquery r hpool, ?_⟩
      simp only [List.any_eq_true, hperm.mem_iff]
    · have hquery := ofLength_of_add? hlength hstop
      refine ⟨_, hholds.find_fst hquery .overlaps hpool, ?_⟩
      rw [hholds.firstOverlapping_fst hquery hpool, List.getElem?_toArray, List.head?_eq_getElem?]
  · intro hsorted
    obtain ⟨t, ht, rfl, hholds⟩ := ofSorted_ok hvalid hsorted
    refine ⟨t, ht, fun start length stop hlength hstop pool hpool r => ?_⟩
    exact hholds.find_fst (ofLength_of_add? hlength hstop) r hpool

theorem queries_of_build_tied :
    let start : Pos .i64 := .clamp 2
    let length : Pos .i64 := .clamp 3
    let query : Span .i64 := .clamp 2 5
    (∃ t, ofList id tiedSpans.reverse = .ok t ∧ ∃ hits,
      (t.find .contains start length .new).1 = .ok hits ∧
      hits.toList.Perm (tiedSpans.reverse.filter fun s => Relation.contains.holds s query)) ∧
    ∃ t, ofSorted id tiedSpans = .ok t ∧ (t.find .contains start length .new).1 =
      .ok (tiedSpans.filter fun s => Relation.contains.holds s query).toArray := by
  intro start length query
  have hpool : (Pool.new : Pool Nat).Clean := Pool.clean_withLimits default
  constructor
  · obtain ⟨t, ht, hqueries⟩ := (queries_of_build id tiedSpans.reverse (by decide)).1 (mergeByStart id)
    obtain ⟨hkinds, -⟩ := hqueries start length query.stop (by decide) (by decide) .new hpool
    obtain ⟨hits, found, hfind, hperm, -⟩ := hkinds .contains
    exact ⟨t, ht, hits, hfind, hperm⟩
  · obtain ⟨t, ht, hqueries⟩ := (queries_of_build id tiedSpans (by decide)).2 (by decide)
    exact ⟨t, ht, hqueries start length query.stop (by decide) (by decide) .new hpool .contains⟩

end IntervalIndex.PackedTree
