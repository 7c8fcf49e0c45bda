import IntervalIndex.Proofs.Tree.Asking
import IntervalIndex.Proofs.Tree.Pruning

namespace IntervalIndex.LinkTree

open Scratch Test

variable {ν α σ : Type} {T : PosType}

theorem collect_fst_eq {t : LinkTree ν α} {values : List α} (hvalues : t.values = .ok values)
    {start length stop : Pos T} (hlength : 0 ≤ length.val) (hstop : start.add? length = some stop)
    (test : Test σ α) (firstOnly : Bool) (out : Array α) (s : σ) {pool : Option (Pool ν)}
    (hpool : ∀ p ∈ pool, p.Clean) :
    (t.collect start length test firstOnly out s pool).1 =
      ⟨out ++ hits (test.asked firstOnly s values),
        test.after s ((test.asked firstOnly s values).map Prod.fst),
        reply (test.asked firstOnly s values) (hits (test.asked firstOnly s values)).length⟩ := by
  rw [collect_fst hvalues (ofLength_of_add? hlength hstop) test firstOnly out s hpool,
    Collected.ofValues_eq, Nat.zero_add]

/-- Collecting asks the test about the values of the tree in order, each once: about all of them, or
up to the first it accepts where no other is wanted. It appends the values accepted to what was
collected before, and counts them. So the first value found is the first of all that would be. -/
theorem collect_asks {t : LinkTree ν α} {values : List α} (hvalues : t.values = .ok values)
    {start length stop : Pos T} (hlength : 0 ≤ length.val) (hstop : start.add? length = some stop)
    (test : Test σ α) (s : σ) (out : Array α) {pool : Option (Pool ν)}
    (hpool : ∀ p ∈ pool, p.Clean) :
    (∀ firstOnly : Bool,
      let asked := test.asked firstOnly s values
      let found := (t.collect start length test firstOnly out s pool).1
      (t.collect start length test.recording firstOnly out (s, []) pool).1.state.2.reverse =
        asked.map Prod.fst ∧
      found.state = test.after s (asked.map Prod.fst) ∧
      found.out = out ++ hits asked ∧
      ((∀ v f, (v, .error f) ∉ asked) → found.count = .ok (hits asked).length ∧
        (firstOnly = false → asked.map Prod.fst = values)) ∧
      ∀ v f, (v, .error f) ∈ asked → found.count = .error (.fault f)) ∧
    hits (test.asked true s values) = (hits (test.asked false s values)).take 1 ∧
    ∀ span : α → Span T, (values.Pairwise fun v w => (span v).start ≤ (span w).start) →
      ∀ first ∈ hits (test.asked true s values), ∀ v ∈ hits (test.asked false s values),
        (span first).start ≤ (span v).start := by
  refine ⟨fun firstOnly => ?_, hits_asked_true test s, fun span hsorted first hfirst v hv => ?_⟩
  · intro asked found
    have hfound : found = ⟨_, _, _⟩ :=
      collect_fst_eq hvalues hlength hstop test firstOnly out s hpool
    rw [collect_fst_eq hvalues hlength hstop test.recording firstOnly out (s, []) hpool, hfound]
    refine ⟨?_, rfl, rfl, ?_, ?_⟩
    · rw [asked_recording, after_recording, List.append_nil, List.reverse_reverse]
    · intro hnone
      refine ⟨reply_of_no_fault hnone _, ?_⟩
      rintro rfl
      exact map_fst_asked_false test s hnone
    · intro v f hf
      exact reply_asked_of_fault test s hf _
  · -- the first hit stands in front of all that would be found, and they are in order of starts
    have hhits := hsorted.sublist (hits_sublist test false s values)
    rw [hits_asked_true] at hfirst
    cases hall : hits (test.asked false s values) with
    | nil => rw [hall] at hv; cases hv
    | cons u rest =>
      rw [hall] at hfirst hv hhits
      obtain rfl : first = u := by simpa using hfirst
      rcases List.mem_cons.mp hv with rfl | hv
      · exact Int.le_refl _
      · exact (List.pairwise_cons.mp hhits).1 v hv

theorem collect_asks_lopsided :
    let start : Pos .i64 := .clamp 4
    let length : Pos .i64 := .clamp 2
    let out : Array (Span .i64) := #[.clamp 1 1]
    let collect firstOnly :=
      (lopsided.toLinkTree.collect start length everySecond firstOnly out true (some .new)).1
    (collect true).out = #[.clamp 1 1, .clamp 0 5] ∧
      (collect false).out = #[.clamp 1 1, .clamp 0 5, .clamp 4 7] ∧
      (collect false).count = .ok 2 := by
  intro start length out collect
  have hpool : (Pool.new : Pool NodeTable.Stage).Clean := Pool.clean_withLimits default
  have hasked : everySecond.asked false true lopsidedSpans =
      [(.clamp 0 5, .ok true), (.clamp 2 3, .ok false), (.clamp 4 7, .ok true)] := rfl
  have hstop : start.add? length = some (.clamp 6) := by decide
  obtain ⟨hcollect, -⟩ := collect_asks lopsided_values (by decide) hstop everySecond true out
    hpool.of_mem_some
  obtain ⟨-, -, hfirst, -⟩ := hcollect true
  obtain ⟨-, -, hall, hcount, -⟩ := hcollect false
  exact ⟨hfirst, hall, (hcount (by simp [hasked])).1⟩

end IntervalIndex.LinkTree
