import IntervalIndex.Packed.Furthest
import IntervalIndex.Proofs.Packed.SlotOrder

namespace IntervalIndex.Packed

variable {ν α : Type} {T : PosType}

/-- The first in a list to reach the greatest end of all. -/
def FirstFurthest (stop : ν → Except Fault (Pos T)) (xs : List ν) (best : ν) : Prop :=
  ∃ top, stop best = .ok top ∧ ∃ before after, xs = before ++ best :: after ∧
    (∀ x ∈ before, ∃ e, stop x = .ok e ∧ e < top) ∧ ∀ x ∈ after, ∃ e, stop x = .ok e ∧ e ≤ top

theorem FirstFurthest.mem {stop : ν → Except Fault (Pos T)} {xs : List ν} {best : ν}
    (h : FirstFurthest stop xs best) : best ∈ xs := by
  obtain ⟨top, _, before, after, rfl, _⟩ := h
  simp

theorem FirstFurthest.le {stop : ν → Except Fault (Pos T)} {xs : List ν} {best : ν} {top : Pos T}
    (h : FirstFurthest stop xs best) (htop : stop best = .ok top) {x : ν} (hx : x ∈ xs) :
    ∃ e, stop x = .ok e ∧ e ≤ top := by
  obtain ⟨top', htop', before, after, rfl, hbefore, hafter⟩ := h
  obtain rfl : top' = top := Except.ok.inj (htop'.symm.trans htop)
  simp only [List.mem_append, List.mem_cons] at hx
  rcases hx with hx | rfl | hx
  · obtain ⟨e, he, hlt⟩ := hbefore x hx
    exact ⟨e, he, Int.le_of_lt hlt⟩
  · exact ⟨top', htop', Int.le_refl _⟩
  · exact hafter x hx

theorem firstFurthest_singleton {stop : ν → Except Fault (Pos T)} {x : ν} {top : Pos T}
    (h : stop x = .ok top) : FirstFurthest stop [x] x :=
  ⟨top, h, [], [], rfl, by simp, by simp⟩

theorem FirstFurthest.append {stop : ν → Except Fault (Pos T)} {xs ys : List ν} {x y : ν}
    {a b : Pos T} (hx : FirstFurthest stop xs x) (hy : FirstFurthest stop ys y)
    (ha : stop x = .ok a) (hb : stop y = .ok b) :
    FirstFurthest stop (xs ++ ys) (if a < b then y else x) := by
  have hxs := fun {w} => hx.le ha (x := w)
  have hys := fun {w} => hy.le hb (x := w)
  by_cases hab : a < b
  · rw [if_pos hab]
    obtain ⟨top, htop, before, after, rfl, hbefore, hafter⟩ := hy
    obtain rfl : top = b := Except.ok.inj (htop.symm.trans hb)
    refine ⟨top, htop, xs ++ before, after, by simp, ?_, hafter⟩
    intro w hw
    rcases List.mem_append.mp hw with hw | hw
    · obtain ⟨e, he, hle⟩ := hxs hw
      exact ⟨e, he, Int.lt_of_le_of_lt hle hab⟩
    · exact hbefore w hw
  · rw [if_neg hab]
    obtain ⟨top, htop, before, after, rfl, hbefore, hafter⟩ := hx
    obtain rfl : top = a := Except.ok.inj (htop.symm.trans ha)
    refine ⟨top, htop, before, after ++ ys, by simp, hbefore, ?_⟩
    intro w hw
    rcases List.mem_append.mp hw with hw | hw
    · exact hafter w hw
    · obtain ⟨e, he, hle⟩ := hys hw
      exact ⟨e, he, Int.le_trans hle (Int.not_lt.mp hab)⟩

variable {span : α → Span T} {values : Array α} {nodes : Array (Node α)}

theorem get_map {β : Type} (f : α → β) (xs : Array α) (i : Nat) :
    Checked.get (xs.map f) i = (Checked.get xs i).map f := by
  simp only [Checked.get, Array.getElem?_map, Array.size_map]
  cases xs[i]? <;> rfl

theorem stopAt_eq (slot : Nat) : stopAt span nodes slot =
    (Checked.get (nodes.map (·.value)) slot).map fun v => (span v).stop := by
  rw [get_map, stopAt]
  cases Checked.get nodes slot <;> rfl

theorem stopAt_of_lt {slot : Nat} (h : slot < nodes.size) :
    stopAt span nodes slot = .ok (span nodes[slot].value).stop := by
  rw [stopAt, Checked.get_of_lt nodes h]
  rfl

theorem stopAt_congr {nodes' : Array (Node α)} (h : nodes'.map (·.value) = nodes.map (·.value)) :
    stopAt span nodes' = stopAt span nodes := by
  funext slot
  rw [stopAt_eq, stopAt_eq, h]

def MarkedFrom (span : α → Span T) (nodes : Array (Node α)) (bound : Nat) : Prop :=
  ∀ slot (h : slot < nodes.size), bound ≤ slot →
    FirstFurthest (stopAt span nodes) (slotTree nodes.size slot).preOrder nodes[slot].furthest

theorem better_spec {best child : Nat} {xs : List Nat}
    (hbest : FirstFurthest (stopAt span nodes) xs best)
    (hchild : ∀ h : child < nodes.size, FirstFurthest (stopAt span nodes)
      (slotTree nodes.size child).preOrder nodes[child].furthest) :
    ∃ next, better span nodes best child = .ok next ∧
      FirstFurthest (stopAt span nodes) (xs ++ (slotTree nodes.size child).preOrder) next := by
  have ⟨a, ha, _⟩ := hbest
  by_cases hc : child < nodes.size
  · have ⟨b, hb, _⟩ := hchild hc
    refine ⟨_, ?_, hbest.append (hchild hc) ha hb⟩
    simp only [better, if_pos hc, Checked.get_of_lt nodes hc]
    simp only [bind, Except.bind, ha, hb, pure, Except.pure]
    split <;> rfl
  · refine ⟨best, ?_, ?_⟩
    · simp only [better, if_neg hc]
      rfl
    · simpa [slotTree_of_le (Nat.not_lt.mp hc), BinTree.preOrder] using hbest

theorem markSlot_spec {slot : Nat} (hs : slot < nodes.size)
    (hmarked : MarkedFrom span nodes (slot + 1)) :
    ∃ nodes', markSlot span nodes slot = .ok nodes' ∧
      nodes'.map (·.value) = nodes.map (·.value) ∧ MarkedFrom span nodes' slot := by
  have hleft : ∀ h : leftSlot slot < nodes.size, _ := fun h =>
    hmarked (leftSlot slot) h (by simp only [leftSlot]; omega)
  have hright : ∀ h : rightSlot slot < nodes.size, _ := fun h =>
    hmarked (rightSlot slot) h (by simp only [rightSlot]; omega)
  obtain ⟨best, hbest, hfirst⟩ := better_spec (firstFurthest_singleton (stopAt_of_lt hs)) hleft
  obtain ⟨best', hbest', hfirst'⟩ := better_spec hfirst hright
  have hvalues : (nodes.set slot ⟨nodes[slot].value, best'⟩ hs).map (·.value) =
      nodes.map (·.value) := by
    have hm : slot < (nodes.map (·.value)).size := by simpa using hs
    rw [Array.map_set]
    simpa using Array.set_getElem_self hm
  refine ⟨nodes.set slot ⟨nodes[slot].value, best'⟩ hs, ?_, hvalues, ?_⟩
  · simp only [markSlot, hbest, Checked.get_of_lt nodes hs]
    simp only [bind, Except.bind, hbest', Checked.set_of_lt nodes _ hs]
  · intro i hi hle
    rw [stopAt_congr hvalues, Array.size_set]
    rw [Array.size_set] at hi
    rcases Nat.lt_or_eq_of_le hle with hlt | rfl
    · rw [Array.getElem_set_ne hs hi (Nat.ne_of_lt hlt)]
      exact hmarked i hi hlt
    · rw [Array.getElem_set_self, slotTree_of_lt hs]
      exact hfirst'

theorem markBelow_spec (bound : Nat) (hb : bound ≤ nodes.size) (hmarked : MarkedFrom span nodes bound) :
    ∃ nodes', markBelow span bound nodes = .ok nodes' ∧
      nodes'.map (·.value) = nodes.map (·.value) ∧ MarkedFrom span nodes' 0 := by
  induction bound generalizing nodes with
  | zero => exact ⟨nodes, rfl, rfl, hmarked⟩
  | succ slot ih =>
    obtain ⟨nodes', hstep, hvalues, hmarked'⟩ := markSlot_spec hb hmarked
    have hsize : nodes'.size = nodes.size := by simpa using congrArg Array.size hvalues
    obtain ⟨last, hlast, hvalues', hall⟩ := ih (by omega) hmarked'
    refine ⟨last, ?_, hvalues'.trans hvalues, hall⟩
    rw [markBelow, hstep]
    exact hlast

theorem markFurthest_spec (span : α → Span T) (values : Array α) :
    ∃ nodes, markFurthest span values = .ok nodes ∧ nodes.map (·.value) = values ∧
      MarkedFrom span nodes 0 := by
  have hsize : (unmarked values).size = values.size := by simp [unmarked]
  have hvalues : (unmarked values).map (·.value) = values := by
    apply Array.ext_getElem?
    intro i
    simp [unmarked, Function.comp_def]
  obtain ⟨nodes, hnodes, hkept, hmarked⟩ := markBelow_spec values.size
    (Nat.le_of_eq hsize.symm) fun slot h hle => absurd hle (by omega)
  exact ⟨nodes, hnodes, hkept.trans hvalues, hmarked⟩

end IntervalIndex.Packed
