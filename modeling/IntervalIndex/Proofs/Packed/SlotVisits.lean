import IntervalIndex.Proofs.Packed.GreatestEnd
import IntervalIndex.Proofs.Tree.Visiting

namespace IntervalIndex

open Scratch Test

variable {ν α σ : Type} {T : PosType}

namespace PackedTree

open Packed

variable {t : PackedTree T α} {values : List α}

@[simp] theorem size_unfold (t : PackedTree T α) : t.toLinkTree.unfold.size = t.size := by
  rw [t.unfold_eq, size_slotTree]

theorem nodup_preOrder (t : PackedTree T α) : t.toLinkTree.unfold.preOrder.Nodup := by
  have hperm := t.toLinkTree.unfold.preOrder_perm_inOrder
  rw [t.unfold_eq] at hperm ⊢
  exact (hperm.trans (slotTree_perm_range t.size)).symm.nodup List.nodup_range

theorem Holds.readable (h : t.Holds values) : t.toLinkTree.Readable where
  value slot hs := ⟨_, t.value_of_lt (lt_of_mem_unfold (BinTree.mem_preOrder_iff.mp hs))⟩
  furthest slot hs := by
    have hlt := lt_of_mem_unfold (BinTree.mem_preOrder_iff.mp hs)
    obtain ⟨best, hbest, hfirst⟩ := h.furthest_spec hlt
    have hmem := BinTree.mem_preOrder_iff.mp hfirst.mem
    rw [t.subtree_eq_slotTree hlt] at hmem
    exact ⟨best, _, hbest, t.value_of_lt (lt_of_mem_slotTree hmem)⟩

end PackedTree

/-- A search asks its test about the values of the tree that the query reaches, in pre-order, up to the
first value accepted, and finds out whether there is one. For this the ends that the tree reports
need not be right. A search of a built tree comes to no slot twice, and ends after a number of steps
that its size bounds. -/
theorem any_asks_reached (span : α → Span T) {start length stop : Pos T} (hlength : 0 ≤ length.val)
    (hstop : start.add? length = some stop) (test : Test σ α) (s : σ) :
    (∀ t : LinkTree ν α, t.Readable → ∀ pool : Option (Pool ν), (∀ p ∈ pool, p.Clean) →
      ∃ values, (t.reached span start length).preOrder.mapM t.value = .ok values ∧
        let asked := test.asked true s values
        let searched := (t.any span start length test s pool).1
        (t.any span start length test.recording (s, []) pool).1.state.2.reverse =
          asked.map Prod.fst ∧
        searched.state = test.after s (asked.map Prod.fst) ∧
        (searched.found = .ok true ↔ ∃ v, (v, .ok true) ∈ asked) ∧
        ((∀ x ∈ asked, x.2 = .ok false) → searched.found = .ok false) ∧
        (∀ v f, (v, .error f) ∈ asked → searched.found = .error (.fault f)) ∧
        ∀ root, t.root? = some root → ∀ b : Buffer ν, b.toStack = [] →
          ∀ steps, 3 * t.unfold.size < steps →
            Search.visited t span ⟨start, stop⟩ test (.start root s b) steps =
              (t.reached span start length).preOrder.take asked.length) ∧
    ∀ (values : List α) (t : PackedTree T α),
      (PackedTree.ofSorted span values = .ok t ∨
        ∃ order : StartSort span, PackedTree.ofListBy order values = .ok t) →
      t.toLinkTree.Readable ∧
      ∀ root, t.toLinkTree.root? = some root → ∀ b : Buffer Nat, b.toStack = [] →
        (∀ steps,
          (Search.visited t.toLinkTree span ⟨start, stop⟩ test (.start root s b) steps).Nodup) ∧
        ∃ candidates state found,
          (Search.step t.toLinkTree span ⟨start, stop⟩ test)^[3 * t.size + 1] (.start root s b) =
            ⟨candidates, state, .done found⟩ ∧
          ∀ pool : Pool Nat, pool.Clean →
            (t.any start length test s pool).1 = ⟨state, found.mapError .fault⟩ := by
  constructor
  · intro t ht pool hpool
    obtain ⟨values, hvalues⟩ := ht.exists_values span start length
    refine ⟨values, hvalues, ?_⟩
    intro asked searched
    have hsearched : searched = ⟨_, _⟩ :=
      LinkTree.any_fst_eq ht hlength hstop hvalues test s hpool
    rw [LinkTree.any_fst_eq ht hlength hstop hvalues test.recording (s, []) hpool, hsearched]
    refine ⟨?_, rfl, reply_asked_eq_true_iff test s, reply_of_forall_false, ?_, ?_⟩
    · rw [asked_recording, after_recording, List.append_nil, List.reverse_reverse]
    · intro v f hf
      exact reply_asked_of_fault test s hf _
    · intro root hroot b hb steps hsteps
      exact LinkTree.visited_eq ht hstop hvalues test s hroot hb hsteps
  · intro values t hbuild
    obtain ⟨rfl, held, -, hholds⟩ := PackedTree.holds_of_build hbuild
    refine ⟨hholds.readable, fun root hroot b hb => ⟨fun steps => ?_, ?_⟩⟩
    · exact LinkTree.nodup_visited hholds.readable t.nodup_preOrder hstop test s hroot hb steps
    · obtain ⟨candidates, state, found, hiterate, hany⟩ :=
        LinkTree.any_eq_iterate hlength hstop test s hroot hb
      rw [t.size_unfold] at hiterate
      exact ⟨candidates, state, found, hiterate, fun pool hpool => hany _ hpool.of_mem_some⟩

/-- The left child of the second node is reached too, as the end that it names is that of its parent. -/
theorem any_asks_reached_lopsided :
    let start : Pos .i64 := .clamp 4
    let length : Pos .i64 := .clamp 2
    let t := LinkTree.lopsided.toLinkTree
    (t.reached id start length).preOrder = [(0, 3), (1, 2), (2, 1)] ∧
      (t.any id start length everySecond.recording (false, []) (some .new)).1.state.2.reverse =
        [.clamp 0 5, .clamp 4 7] ∧
      (t.any id start length everySecond false (some .new)).1.found = .ok true ∧
      ∃ t, PackedTree.ofSorted id PackedTree.tiedSpans = .ok t ∧ ∀ steps,
        (Search.visited t.toLinkTree id (.clamp 4 6) everySecond
          (.start 0 false .fresh) steps).Nodup := by
  intro start length t
  have hpool : (Pool.new : Pool NodeTable.Stage).Clean := Pool.clean_withLimits default
  have hstop : start.add? length = some (.clamp 6) := by decide
  have hreached : (t.reached id start length).preOrder = [(0, 3), (1, 2), (2, 1)] := by
    rw [LinkTree.reached, LinkTree.lopsided_unfold]
    rfl
  obtain ⟨hany, hpacked⟩ :=
    any_asks_reached (ν := NodeTable.Stage) id (by decide) hstop everySecond false
  obtain ⟨values, hvalues, hrecorded, -, hfound, -⟩ :=
    hany t LinkTree.lopsided_readable (some .new) hpool.of_mem_some
  rw [hreached] at hvalues
  obtain rfl : [.clamp 0 5, .clamp 4 7, .clamp 2 3] = values := Except.ok.inj hvalues
  refine ⟨hreached, hrecorded, hfound.mpr ⟨.clamp 4 7, ?_⟩, ?_⟩
  · exact List.mem_cons_of_mem _ List.mem_cons_self
  · obtain ⟨t, ht, -, hholds⟩ := @PackedTree.ofSorted_ok .i64 _ id PackedTree.tiedSpans (by decide)
      (by decide)
    have hsize : 0 < t.size := by simp [hholds.size_eq, PackedTree.tiedSpans]
    have hroot : t.toLinkTree.root? = some 0 := if_pos hsize
    obtain ⟨-, hends⟩ := hpacked _ t (.inl ht)
    exact ⟨t, ht, (hends 0 hroot .fresh Buffer.toStack_fresh).1⟩

end IntervalIndex
