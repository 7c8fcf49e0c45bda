import IntervalIndex.Proofs.Packed.Packing
import IntervalIndex.Proofs.Tree.Pruning

namespace IntervalIndex.PackedTree

open Packed

variable {T : PosType} {α : Type} {t : PackedTree T α} {values : List α}

theorem stopAt_of_value {slot : Nat} {v : α} (h : t.toLinkTree.value slot = .ok v) :
    stopAt t.span t.nodes slot = .ok (t.span v).stop := by
  change (Checked.get t.nodes slot).map (·.value) = .ok v at h
  rw [stopAt_eq, get_map, h]
  rfl

theorem furthestEnd_of_furthest {slot best : Nat} (h : t.toLinkTree.furthest slot = .ok best) :
    t.furthestEnd slot = stopAt t.span t.nodes best := by
  rw [stopAt_eq, get_map]
  change (do return (t.span (← t.toLinkTree.value (← t.toLinkTree.furthest slot))).stop) = _
  rw [h]
  change (do return (t.span (← (Checked.get t.nodes best).map fun n : Node α => n.value)).stop) = _
  cases Checked.get t.nodes best <;> rfl

/-- A mark is the first slot of the subtree in pre-order to reach the greatest end there. -/
theorem Holds.furthest_spec (h : t.Holds values) {slot : Nat} (hs : slot < t.size) :
    ∃ best, t.toLinkTree.furthest slot = .ok best ∧
      FirstFurthest (stopAt t.span t.nodes) (t.toLinkTree.subtree slot).preOrder best := by
  refine ⟨t.nodes[slot].furthest, t.furthest_of_lt hs, ?_⟩
  rw [t.subtree_eq_slotTree hs]
  exact h.marked slot hs (Nat.zero_le slot)

theorem Holds.endBounds (h : t.Holds values) {slot : Nat}
    (hs : slot ∈ t.toLinkTree.unfold.inOrder) : t.toLinkTree.EndBounds t.span slot := by
  obtain ⟨best, hbest, hfirst⟩ := h.furthest_spec (lt_of_mem_unfold hs)
  have ⟨top, htop, _⟩ := hfirst
  refine ⟨top, (furthestEnd_of_furthest hbest).trans htop, ?_⟩
  intro m hm v hv
  obtain ⟨e, he, hle⟩ := hfirst.le htop (BinTree.mem_preOrder_iff.mpr hm)
  obtain rfl : e = (t.span v).stop := Except.ok.inj (he.symm.trans (stopAt_of_value hv))
  exact hle

theorem Holds.greatestEnd_nil (h : t.Holds []) : t.greatestEnd = .ok none := by
  have hroot : t.toLinkTree.root? = none := if_neg (by simp [h.size_eq])
  rw [greatestEnd, hroot]

theorem Holds.greatestEnd_of_ne_nil (h : t.Holds values) (hne : values ≠ []) :
    ∃ v ∈ values, t.greatestEnd = .ok (some (t.span v).stop) ∧
      ∀ w ∈ values, (t.span w).stop ≤ (t.span v).stop := by
  have hpos : 0 < t.size := h.size_eq ▸ List.length_pos_iff.mpr hne
  have hroot : t.toLinkTree.root? = some 0 := if_pos hpos
  have hall : t.toLinkTree.unfold = t.toLinkTree.subtree 0 := by
    rw [t.unfold_eq, t.subtree_eq_slotTree hpos]
  obtain ⟨best, hbest, hfirst⟩ := h.furthest_spec hpos
  have hmem : best ∈ t.toLinkTree.unfold.inOrder := hall ▸ BinTree.mem_preOrder_iff.mp hfirst.mem
  obtain ⟨v, hv, hslot⟩ := mem_of_mapM h.values_eq hmem
  refine ⟨v, hv, ?_, ?_⟩
  · simp only [greatestEnd, hroot]
    rw [furthestEnd_of_furthest hbest, stopAt_of_value hslot]
    rfl
  · intro w hw
    obtain ⟨slot, hs, hwslot⟩ := exists_of_mapM h.values_eq hw
    obtain ⟨e, he, hle⟩ := hfirst.le (stopAt_of_value hslot)
      (BinTree.mem_preOrder_iff.mpr (hall ▸ hs))
    obtain rfl : e = (t.span w).stop := Except.ok.inj (he.symm.trans (stopAt_of_value hwslot))
    exact hle

/-- In a tree that building returns, each slot names a slot below it: the first in pre-order to reach
the greatest end there. So the greatest end of all is that of the values. -/
theorem furthest_of_build {span : α → Span T}
    (hbuild : ofSorted span values = .ok t ∨
      ∃ order : StartSort span, ofListBy order values = .ok t) :
    (∀ slot < t.size, ∃ best, t.toLinkTree.furthest slot = .ok best ∧
      FirstFurthest (stopAt span t.nodes) (t.toLinkTree.subtree slot).preOrder best) ∧
    (values = [] ∧ t.size = 0 ∧ t.greatestEnd = .ok none ∨
      ∃ v ∈ values, t.greatestEnd = .ok (some (span v).stop) ∧
        ∀ w ∈ values, (span w).stop ≤ (span v).stop) := by
  obtain ⟨rfl, held, hperm, hholds⟩ := holds_of_build hbuild
  refine ⟨fun slot hs => hholds.furthest_spec hs, ?_⟩
  by_cases hne : values = []
  · subst hne
    obtain rfl := hperm.eq_nil
    exact .inl ⟨rfl, hholds.size_eq, hholds.greatestEnd_nil⟩
  · have hheld : held ≠ [] := fun h => hne (h ▸ hperm).symm.eq_nil
    obtain ⟨v, hv, hend, hle⟩ := hholds.greatestEnd_of_ne_nil hheld
    exact .inr ⟨v, hperm.mem_iff.mp hv, hend, fun w hw => hle w (hperm.mem_iff.mpr hw)⟩

theorem furthest_of_build_tied : ∃ t, ofSorted id tiedSpans = .ok t ∧
    (∀ slot < t.size, ∃ best, t.toLinkTree.furthest slot = .ok best ∧
      FirstFurthest (stopAt id t.nodes) (t.toLinkTree.subtree slot).preOrder best) ∧
    ∃ s ∈ tiedSpans, t.greatestEnd = .ok (some s.stop) ∧ ∀ s' ∈ tiedSpans, s'.stop ≤ s.stop := by
  obtain ⟨t, ht, -⟩ := @ofSorted_ok .i64 _ id tiedSpans (by decide) (by decide)
  obtain ⟨hmarks, ⟨hnil, -⟩ | hend⟩ := furthest_of_build (.inl ht)
  · cases hnil
  · exact ⟨t, ht, hmarks, hend⟩

end IntervalIndex.PackedTree
