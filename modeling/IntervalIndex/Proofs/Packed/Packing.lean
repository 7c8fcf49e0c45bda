import IntervalIndex.Packed.Query
import IntervalIndex.Proofs.Packed.Marking
import IntervalIndex.Proofs.Packed.Settling
import IntervalIndex.Proofs.QueryBounds
import IntervalIndex.Proofs.Tree.Scanning

namespace IntervalIndex.PackedTree

open Packed

variable {T : PosType} {α : Type}

theorem below_child? (t : PackedTree T α) (slot : Nat) :
    t.toLinkTree.below (t.child? slot) = slotTree t.size slot := by
  fun_induction slotTree t.size slot with
  | case1 slot h ihl ihr =>
    have hc : t.child? slot = some slot := if_pos h
    rw [hc, LinkTree.below_some, ← ihl, ← ihr]
    rfl
  | case2 slot h =>
    have hc : t.child? slot = none := if_neg h
    rw [hc, LinkTree.below_none]

theorem unfold_eq (t : PackedTree T α) : t.toLinkTree.unfold = slotTree t.size 0 :=
  t.below_child? 0

theorem subtree_eq_slotTree (t : PackedTree T α) {slot : Nat} (h : slot < t.size) :
    t.toLinkTree.subtree slot = slotTree t.size slot := by
  have hc : t.child? slot = some slot := if_pos h
  rw [← t.below_child? slot, hc]
  rfl

theorem lt_of_mem_unfold {t : PackedTree T α} {slot : Nat}
    (h : slot ∈ t.toLinkTree.unfold.inOrder) : slot < t.size := by
  rw [t.unfold_eq] at h
  exact lt_of_mem_slotTree h

theorem value_of_lt (t : PackedTree T α) {slot : Nat} (h : slot < t.nodes.size) :
    t.toLinkTree.value slot = .ok t.nodes[slot].value := by
  change (Checked.get t.nodes slot).map (·.value) = _
  rw [Checked.get_of_lt t.nodes h]
  rfl

theorem furthest_of_lt (t : PackedTree T α) {slot : Nat} (h : slot < t.nodes.size) :
    t.toLinkTree.furthest slot = .ok t.nodes[slot].furthest := by
  change (Checked.get t.nodes slot).map (·.furthest) = _
  rw [Checked.get_of_lt t.nodes h]
  rfl

theorem exists_values (t : PackedTree T α) : ∃ values, t.toLinkTree.values = .ok values :=
  exists_mapM fun _ hslot => ⟨_, t.value_of_lt (lt_of_mem_unfold hslot)⟩

/-- The tree holds a list of values in order, and its slots are marked. -/
structure Holds (t : PackedTree T α) (values : List α) : Prop where
  size_eq : t.size = values.length
  values_eq : t.toLinkTree.values = .ok values
  marked : MarkedFrom t.span t.nodes 0

theorem pack_spec (span : α → Span T) (values : List α) :
    ∃ nodes, pack span values = .ok nodes ∧ Holds ⟨span, nodes⟩ values := by
  have hperm : (slotTree values.length 0).inOrder.toArray.toList.Perm
      (List.range values.toArray.size) := by
    simpa using slotTree_perm_range values.length
  obtain ⟨a, ha, -, -, hsize, hmoved⟩ := arrange_spec hperm
  obtain ⟨nodes, hnodes, hvalues, hmarked⟩ := markFurthest_spec span a.values
  have hlength : nodes.size = values.length := by
    simpa [hsize] using congrArg Array.size hvalues
  refine ⟨nodes, ?_, hlength, ?_, hmarked⟩
  · rw [pack, targetSlots_eq]
    simp only [bind, Except.bind, ha, hnodes]
  · rw [LinkTree.values, unfold_eq, mapM_eq_ok_iff, List.forall₂_iff_get]
    change (slotTree nodes.size 0).inOrder.length = _ ∧ _
    refine ⟨by simp [hlength], fun p hp hp' => ?_⟩
    change p < (slotTree nodes.size 0).inOrder.length at hp
    change (Checked.get nodes (slotTree nodes.size 0).inOrder[p]).map (·.value) = .ok values[p]
    have hslot : (slotTree values.length 0).inOrder.toArray[p]? =
        some (slotTree nodes.size 0).inOrder[p] := by
      simp [← hlength, List.getElem?_eq_getElem hp]
    have hmoved' := hmoved hslot (show values.toArray[p]? = some values[p] by simp)
    rw [← get_map, hvalues]
    exact Checked.get_eq_ok_iff.mpr hmoved'

theorem firstInverted_ok {span : α → Span T} {values : List α} :
    firstInverted span values = .ok () ↔ ∀ v ∈ values, (span v).start ≤ (span v).stop := by
  induction values with
  | nil => simp [firstInverted]
  | cons v vs ih =>
    rw [firstInverted, Span.ofBounds]
    by_cases h : (span v).stop < (span v).start
    · have hv : ¬ (span v).start ≤ (span v).stop := Int.not_le.mpr h
      simp [if_pos h, hv]
    · have hv : (span v).start ≤ (span v).stop := Int.not_lt.mp h
      simp [if_neg h, hv, ih]

theorem firstInverted_append {span : α → Span T} {before : List α} {v : α} (after : List α)
    (hbefore : ∀ u ∈ before, (span u).start ≤ (span u).stop)
    (hv : (span v).stop < (span v).start) :
    firstInverted span (before ++ v :: after) = .error (.inverted (span v).start (span v).stop) := by
  induction before with
  | nil => rw [List.nil_append, firstInverted, Span.ofBounds, if_pos hv]
  | cons u us ih =>
    have hu : ¬ (span u).stop < (span u).start := Int.not_lt.mpr (hbefore u List.mem_cons_self)
    rw [List.cons_append, firstInverted, Span.ofBounds, if_neg hu]
    exact ih fun w hw => hbefore w (List.mem_cons_of_mem u hw)

theorem exists_first_inverted {span : α → Span T} {values : List α}
    (h : ∃ v ∈ values, (span v).stop < (span v).start) :
    ∃ before v after, values = before ++ v :: after ∧
      (∀ u ∈ before, (span u).start ≤ (span u).stop) ∧ (span v).stop < (span v).start := by
  have hfound : (values.find? fun v => decide ((span v).stop < (span v).start)).isSome := by
    simpa using h
  obtain ⟨v, hv⟩ := Option.isSome_iff_exists.mp hfound
  obtain ⟨hinverted, before, after, rfl, hbefore⟩ := List.find?_eq_some_iff_append.mp hv
  refine ⟨before, v, after, rfl, fun u hu => ?_, by simpa using hinverted⟩
  have hnot : ¬ (span u).stop < (span u).start := by simpa using hbefore u hu
  exact Int.not_lt.mp hnot

theorem isSorted_iff {span : α → Span T} {values : List α} :
    isSorted span values = true ↔ values.Pairwise fun v w => (span v).start ≤ (span w).start := by
  induction values with
  | nil => simp [isSorted]
  | cons v vs ih =>
    cases vs with
    | nil => simp [isSorted]
    | cons w vs =>
      simp only [isSorted, Bool.and_eq_true, ih, startsBefore, decide_eq_true_eq]
      rw [List.pairwise_cons (a := v)]
      refine and_congr_left fun hrest => ⟨fun h u hu => ?_, fun h => h w List.mem_cons_self⟩
      rcases List.mem_cons.mp hu with rfl | hu
      · exact h
      · exact Int.le_trans h ((List.pairwise_cons.mp hrest).1 u hu)

theorem ofSorted_ok {span : α → Span T} {values : List α}
    (hvalid : ∀ v ∈ values, (span v).start ≤ (span v).stop)
    (hsorted : values.Pairwise fun v w => (span v).start ≤ (span w).start) :
    ∃ t, ofSorted span values = .ok t ∧ t.span = span ∧ t.Holds values := by
  obtain ⟨nodes, hnodes, hholds⟩ := pack_spec span values
  refine ⟨⟨span, nodes⟩, ?_, rfl, hholds⟩
  rw [ofSorted, firstInverted_ok.mpr hvalid]
  simp only [isSorted_iff.mpr hsorted, if_true, hnodes]

theorem holds_of_ofSorted {span : α → Span T} {values : List α} {t : PackedTree T α}
    (h : ofSorted span values = .ok t) : t.span = span ∧ t.Holds values := by
  obtain ⟨nodes, hnodes, hholds⟩ := pack_spec span values
  rw [ofSorted] at h
  cases hf : firstInverted span values with
  | error e => rw [hf] at h; cases h
  | ok u =>
    rw [hf] at h
    by_cases hs : isSorted span values = true
    · simp only [hs, if_true, hnodes, Except.ok.injEq] at h
      subst h
      exact ⟨rfl, hholds⟩
    · simp [hs] at h

theorem ofListBy_ok {span : α → Span T} (order : StartSort span) {values : List α}
    (hvalid : ∀ v ∈ values, (span v).start ≤ (span v).stop) :
    ∃ t, ofListBy order values = .ok t ∧ t.span = span ∧ t.Holds (order.sort values) :=
  ofSorted_ok (fun v hv => hvalid v ((order.perm values).mem_iff.mp hv)) (order.pairwise values)

theorem ofSorted_error {span : α → Span T} {values : List α}
    (hsorted : values.Pairwise fun v w => (span v).start ≤ (span w).start)
    (h : ∃ v ∈ values, (span v).stop < (span v).start) :
    ∃ v ∈ values, (span v).stop < (span v).start ∧
      (∀ w ∈ values, (span w).stop < (span w).start → (span v).start ≤ (span w).start) ∧
      ofSorted span values = .error (.rejected (.inverted (span v).start (span v).stop)) := by
  obtain ⟨before, v, after, rfl, hbefore, hv⟩ := exists_first_inverted h
  refine ⟨v, by simp, hv, fun w hw hinverted => ?_, ?_⟩
  · rcases List.mem_append.mp hw with hw | hw
    · exact absurd hinverted (Int.not_lt.mpr (hbefore w hw))
    · rcases List.mem_cons.mp hw with rfl | hw
      · exact Int.le_refl _
      · exact (List.pairwise_cons.mp (List.pairwise_append.mp hsorted).2.1).1 w hw
  · rw [ofSorted, firstInverted_append after hbefore hv]

theorem ofListBy_error {span : α → Span T} (order : StartSort span) {values : List α}
    (h : ∃ v ∈ values, (span v).stop < (span v).start) :
    ∃ v ∈ values, (span v).stop < (span v).start ∧
      ofListBy order values = .error (.rejected (.inverted (span v).start (span v).stop)) := by
  have hmem : ∀ {v}, v ∈ order.sort values ↔ v ∈ values := (order.perm values).mem_iff
  obtain ⟨w, hw, hinverted⟩ := h
  obtain ⟨v, hv, hv', -, herror⟩ :=
    ofSorted_error (order.pairwise values) ⟨w, hmem.mpr hw, hinverted⟩
  exact ⟨v, hmem.mp hv, hv', herror⟩

theorem Holds.toList_fst {t : PackedTree T α} {values : List α} (h : t.Holds values)
    {pool : Scratch.Pool Nat} (hpool : pool.Clean) : (t.toList pool).1 = .ok values :=
  (t.toLinkTree.toList_fst hpool.of_mem_some).trans h.values_eq

theorem toList_clean (t : PackedTree T α) {pool : Scratch.Pool Nat} (hpool : pool.Clean) :
    (t.toList pool).2.Clean :=
  Scratch.Pool.getD_clean (t.toLinkTree.toList_clean hpool.of_mem_some) hpool

theorem holds_of_build {span : α → Span T} {values : List α} {t : PackedTree T α}
    (h : ofSorted span values = .ok t ∨ ∃ order : StartSort span, ofListBy order values = .ok t) :
    t.span = span ∧ ∃ held, held.Perm values ∧ t.Holds held := by
  rcases h with h | ⟨order, h⟩
  · exact ⟨(holds_of_ofSorted h).1, values, .rfl, (holds_of_ofSorted h).2⟩
  · exact ⟨(holds_of_ofSorted h).1, _, order.perm values, (holds_of_ofSorted h).2⟩

/-- Walking a built tree undoes the packing: sorted values come back as they were, other values come
back sorted, and each walk gives the same. -/
theorem toList_of_build (span : α → Span T) (values : List α)
    (hvalid : ∀ v ∈ values, (span v).start ≤ (span v).stop) :
    ((values.Pairwise fun v w => (span v).start ≤ (span w).start) →
      ∃ t, ofSorted span values = .ok t ∧ t.size = values.length ∧
        ∀ pool : Scratch.Pool Nat, pool.Clean →
          (t.toList pool).1 = .ok values ∧ (t.toList pool).2.Clean) ∧
    ∀ order : StartSort span, ∃ t sorted, ofListBy order values = .ok t ∧
      t.size = values.length ∧ sorted.Perm values ∧
      (sorted.Pairwise fun v w => (span v).start ≤ (span w).start) ∧
      ∀ pool : Scratch.Pool Nat, pool.Clean →
        (t.toList pool).1 = .ok sorted ∧ (t.toList pool).2.Clean := by
  constructor
  · intro hsorted
    obtain ⟨t, ht, -, hholds⟩ := ofSorted_ok hvalid hsorted
    exact ⟨t, ht, hholds.size_eq, fun pool hpool => ⟨hholds.toList_fst hpool, t.toList_clean hpool⟩⟩
  · intro order
    obtain ⟨t, ht, -, hholds⟩ := ofListBy_ok order hvalid
    have hperm := order.perm values
    refine ⟨t, _, ht, hholds.size_eq.trans hperm.length_eq, hperm, order.pairwise values, ?_⟩
    exact fun pool hpool => ⟨hholds.toList_fst hpool, t.toList_clean hpool⟩

def tiedSpans : List (Span .i64) := [.clamp 0 9, .clamp 2 2, .clamp 2 9, .clamp 5 6]

theorem toList_of_build_tied :
    (∃ t, ofSorted id tiedSpans = .ok t ∧ t.size = 4 ∧ (t.toList .new).1 = .ok tiedSpans) ∧
      ∃ t sorted, ofList id tiedSpans.reverse = .ok t ∧ sorted.Perm tiedSpans.reverse ∧
        (sorted.Pairwise fun v w => v.start ≤ w.start) ∧ (t.toList .new).1 = .ok sorted := by
  have hpool : (Scratch.Pool.new : Scratch.Pool Nat).Clean := Scratch.Pool.clean_withLimits default
  constructor
  · obtain ⟨t, ht, hsize, hlist⟩ := (toList_of_build id tiedSpans (by decide)).1 (by decide)
    exact ⟨t, ht, hsize, (hlist .new hpool).1⟩
  · obtain ⟨t, sorted, ht, -, hperm, hsorted, hlist⟩ :=
      (toList_of_build id tiedSpans.reverse (by decide)).2 (mergeByStart id)
    exact ⟨t, sorted, ht, hperm, hsorted, (hlist .new hpool).1⟩

end IntervalIndex.PackedTree
