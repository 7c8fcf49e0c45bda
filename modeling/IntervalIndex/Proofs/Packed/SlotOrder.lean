import IntervalIndex.Packed.Slots
import IntervalIndex.Tree.BinTree
import Mathlib.Data.List.Perm.Subperm
import Mathlib.Tactic.Ring

namespace IntervalIndex.Packed

/-- The complete tree on the slots under a count, from one of them downwards. -/
def slotTree (count slot : Nat) : BinTree Nat :=
  if slot < count then
    .node (slotTree count (leftSlot slot)) slot (slotTree count (rightSlot slot))
  else .leaf
termination_by count - slot
decreasing_by all_goals simp only [leftSlot, rightSlot]; omega

theorem slotTree_of_lt {count slot : Nat} (h : slot < count) :
    slotTree count slot =
      .node (slotTree count (leftSlot slot)) slot (slotTree count (rightSlot slot)) := by
  rw [slotTree, if_pos h]

theorem slotTree_of_le {count slot : Nat} (h : count ≤ slot) : slotTree count slot = .leaf := by
  rw [slotTree, if_neg (Nat.not_lt.mpr h)]

theorem mem_slotTree_self {count slot : Nat} (h : slot < count) :
    slot ∈ (slotTree count slot).inOrder := by
  simp [slotTree_of_lt h, BinTree.inOrder]

theorem lt_of_mem_slotTree {count slot s : Nat} (h : s ∈ (slotTree count slot).inOrder) :
    s < count := by
  fun_induction slotTree count slot with
  | case1 slot hlt ihl ihr =>
    simp only [BinTree.inOrder, List.mem_append, List.mem_cons] at h
    rcases h with h | rfl | h
    · exact ihl h
    · exact hlt
    · exact ihr h
  | case2 slot hge => simp [BinTree.inOrder] at h

theorem mem_slotTree_child {count slot s child : Nat} (h : s ∈ (slotTree count slot).inOrder)
    (link : child = leftSlot s ∨ child = rightSlot s) (hc : child < count) :
    child ∈ (slotTree count slot).inOrder := by
  fun_induction slotTree count slot with
  | case1 slot hlt ihl ihr =>
    simp only [BinTree.inOrder, List.mem_append, List.mem_cons] at h ⊢
    rcases h with h | rfl | h
    · exact .inl (ihl h)
    · rcases link with rfl | rfl
      · exact .inl (mem_slotTree_self hc)
      · exact .inr (.inr (mem_slotTree_self hc))
    · exact .inr (.inr (ihr h))
  | case2 slot hge => simp [BinTree.inOrder] at h

theorem mem_slotTree_zero {count : Nat} (s : Nat) (h : s < count) :
    s ∈ (slotTree count 0).inOrder := by
  induction s using Nat.strongRecOn with
  | ind s ih =>
    cases s with
    | zero => exact mem_slotTree_self h
    | succ s =>
      have hp := ih (s / 2) (by omega) (by omega)
      refine mem_slotTree_child hp ?_ h
      simp only [leftSlot, rightSlot]
      omega

def numbered (first : Nat) (slots : List Nat) : List Placement :=
  (slots.zipIdx first).map Prod.swap

@[simp] theorem numbered_nil (first : Nat) : numbered first [] = [] := rfl

@[simp] theorem numbered_cons (first s : Nat) (slots : List Nat) :
    numbered first (s :: slots) = (first, s) :: numbered (first + 1) slots := by
  simp [numbered]

theorem numbered_append (first : Nat) (xs ys : List Nat) :
    numbered first (xs ++ ys) = numbered first xs ++ numbered (first + xs.length) ys := by
  simp [numbered, List.zipIdx_append]

@[simp] theorem length_numbered (first : Nat) (slots : List Nat) :
    (numbered first slots).length = slots.length := by
  simp [numbered]

/-- The values of the last level that stand before the upper values from `lo` up to `hi`. -/
def lastLevelBetween (full lastLevel lo hi : Nat) : List Placement :=
  (List.range' (min lo lastLevel) (min hi lastLevel - min lo lastLevel)).map
    fun k => (2 * k, full + k)

theorem lastLevelBetween_append (full lastLevel : Nat) {lo mid hi : Nat} (hl : lo ≤ mid)
    (hh : mid ≤ hi) :
    lastLevelBetween full lastLevel lo mid ++ lastLevelBetween full lastLevel mid hi =
      lastLevelBetween full lastLevel lo hi := by
  have hs : min mid lastLevel = min lo lastLevel + (min mid lastLevel - min lo lastLevel) := by
    omega
  have ht : min mid lastLevel - min lo lastLevel + (min hi lastLevel - min mid lastLevel) =
      min hi lastLevel - min lo lastLevel := by omega
  simp only [lastLevelBetween, ← List.map_append]
  conv => lhs; arg 2; arg 2; rw [hs]
  rw [List.range'_append_1]
  congr 2
  omega

theorem length_lastLevelBetween (full lastLevel lo hi : Nat) :
    (lastLevelBetween full lastLevel lo hi).length = min hi lastLevel - min lo lastLevel := by
  simp [lastLevelBetween]

theorem placeLastLevel_eq {full lastLevel : Nat} (h : lastLevel ≤ full) :
    placeLastLevel full lastLevel = lastLevelBetween full lastLevel 0 (full + 1) := by
  have hm : min (full + 1) lastLevel = lastLevel := by omega
  simp [placeLastLevel, lastLevelBetween, hm, List.range_eq_range']

theorem length_placeFullLevels (lastLevel lo hi slot : Nat) :
    (placeFullLevels lastLevel lo hi slot).length = hi - lo := by
  fun_induction placeFullLevels lastLevel lo hi slot with
  | case1 lo hi slot h mid ihl ihr =>
    simp only [List.length_cons, List.length_append, ihl, ihr]
    omega
  | case2 lo hi slot h => simp; omega

theorem upperPosition_eq (lastLevel k : Nat) :
    upperPosition lastLevel k = k + min (k + 1) lastLevel := by
  rw [upperPosition]
  split <;> omega

theorem pow_mul_leftSlot (height slot : Nat) :
    2 ^ height * (leftSlot slot + 1) = 2 ^ (height + 1) * (slot + 1) := by
  rw [leftSlot]
  ring

theorem pow_mul_rightSlot (height slot : Nat) :
    2 ^ height * (rightSlot slot + 1) = 2 ^ (height + 1) * (slot + 1) + 2 ^ height := by
  rw [rightSlot]
  ring

theorem numbered_slotTree_last {count full lastLevel : Nat} (hcount : count = full + lastLevel)
    (hlast : lastLevel ≤ full) (lo : Nat) :
    numbered (lo + min lo lastLevel) (slotTree count (full + lo)).inOrder =
      lastLevelBetween full lastLevel lo (lo + 1) := by
  by_cases h : lo < lastLevel
  · have hl : slotTree count (leftSlot (full + lo)) = .leaf :=
      slotTree_of_le (by simp only [leftSlot]; omega)
    have hr : slotTree count (rightSlot (full + lo)) = .leaf :=
      slotTree_of_le (by simp only [rightSlot]; omega)
    have hm : min lo lastLevel = lo := by omega
    have hm' : min (lo + 1) lastLevel - lo = 1 := by omega
    rw [slotTree_of_lt (by omega), hl, hr]
    simp [BinTree.inOrder, lastLevelBetween, hm, hm', Nat.two_mul]
  · have hm : min (lo + 1) lastLevel - min lo lastLevel = 0 := by omega
    rw [slotTree_of_le (by omega)]
    simp [BinTree.inOrder, lastLevelBetween, hm]

/-- Below a slot that begins at the upper position `lo` with `height` full levels, the walk in order
comes to exactly the placements made there, each at its position. -/
theorem numbered_slotTree_perm {count full lastLevel : Nat} (hcount : count = full + lastLevel)
    (hlast : lastLevel ≤ full) (height lo hi slot : Nat)
    (hslot : 2 ^ height * (slot + 1) = full + 1 + lo) (hhi : hi + 1 = lo + 2 ^ height)
    (hfull : hi ≤ full) :
    (numbered (lo + min lo lastLevel) (slotTree count slot).inOrder).Perm
      (lastLevelBetween full lastLevel lo (hi + 1) ++ placeFullLevels lastLevel lo hi slot) := by
  induction height generalizing lo hi slot with
  | zero =>
    obtain rfl : slot = full + lo := by omega
    obtain rfl : hi = lo := by omega
    have hp : placeFullLevels lastLevel hi hi (full + hi) = [] := by
      rw [placeFullLevels, if_neg (Nat.lt_irrefl hi)]
    rw [hp, List.append_nil, numbered_slotTree_last hcount hlast hi]
  | succ height ih =>
    have hpow : 0 < 2 ^ height := Nat.two_pow_pos height
    have htwo : 2 ^ (height + 1) = 2 * 2 ^ height := Nat.pow_succ'
    have hle : slot + 1 ≤ 2 ^ height * (slot + 1) := Nat.le_mul_of_pos_left _ hpow
    have hdouble : 2 ^ (height + 1) * (slot + 1) = 2 * (2 ^ height * (slot + 1)) := by ring
    let mid := lo + (hi - lo) / 2
    have hmid : mid + 1 = lo + 2 ^ height := by omega
    have ihl := ih lo mid (leftSlot slot) (by rw [pow_mul_leftSlot, hslot]) hmid (by omega)
    have ihr := ih (mid + 1) hi (rightSlot slot) (by rw [pow_mul_rightSlot]; omega) (by omega) hfull
    have hlen : (slotTree count (leftSlot slot)).inOrder.length =
        mid - lo + (min (mid + 1) lastLevel - min lo lastLevel) := by
      have hl := ihl.length_eq
      rw [length_numbered, List.length_append, length_lastLevelBetween, length_placeFullLevels] at hl
      omega
    have hposition : lo + min lo lastLevel + (slotTree count (leftSlot slot)).inOrder.length =
        upperPosition lastLevel mid := by
      rw [hlen, upperPosition_eq]
      omega
    have hnext : upperPosition lastLevel mid + 1 = mid + 1 + min (mid + 1) lastLevel := by
      rw [upperPosition_eq]
      omega
    rw [slotTree_of_lt (by omega), BinTree.inOrder, numbered_append, numbered_cons, hposition,
      hnext, ← lastLevelBetween_append full lastLevel (show lo ≤ mid + 1 by omega)
        (show mid + 1 ≤ hi + 1 by omega), placeFullLevels, if_pos (by omega)]
    -- the two halves stand apart, with the slot's own value between them
    refine (ihl.append (ihr.cons _)).trans ?_
    simp only [List.append_assoc]
    refine List.Perm.append_left _ ?_
    exact List.perm_middle.trans
      (((List.perm_append_comm_assoc _ _ _).cons _).trans List.perm_middle.symm)

theorem fullLevels_spec (count : Nat) :
    count = 2 ^ (fullLevels count).1 - 1 + (fullLevels count).2 ∧
      (fullLevels count).2 < 2 ^ (fullLevels count).1 := by
  have hlow : 2 ^ (count + 1).log2 ≤ count + 1 := Nat.log2_self_le (Nat.succ_ne_zero count)
  have hhigh : count + 1 < 2 ^ ((count + 1).log2 + 1) := Nat.lt_log2_self
  have hpos : 0 < 2 ^ (count + 1).log2 := Nat.two_pow_pos _
  have htwo : 2 ^ ((count + 1).log2 + 1) = 2 * 2 ^ (count + 1).log2 := Nat.pow_succ'
  have hpow : Nat.pow 2 (count + 1).log2 = 2 ^ (count + 1).log2 := rfl
  simp only [fullLevels, hpow]
  omega

theorem placements_perm (count : Nat) :
    (numbered 0 (slotTree count 0).inOrder).Perm (placements count) := by
  obtain ⟨hcount, hlast⟩ := fullLevels_spec count
  have hpos : 0 < 2 ^ (fullLevels count).1 := Nat.two_pow_pos _
  have hfull : count - (fullLevels count).2 = 2 ^ (fullLevels count).1 - 1 := by omega
  have h := numbered_slotTree_perm hcount (by omega) (fullLevels count).1 0
    (2 ^ (fullLevels count).1 - 1) 0 (by omega) (by omega) (Nat.le_refl _)
  have hle : (fullLevels count).2 ≤ 2 ^ (fullLevels count).1 - 1 := by omega
  simpa only [placements, hfull, placeLastLevel_eq hle, Nat.zero_min, Nat.add_zero] using h

@[simp] theorem size_slotTree (count : Nat) : (slotTree count 0).size = count := by
  obtain ⟨hcount, hlast⟩ := fullLevels_spec count
  have hl := (placements_perm count).length_eq
  simp only [length_numbered, BinTree.length_inOrder, placements, placeLastLevel,
    List.length_append, List.length_map, List.length_range, length_placeFullLevels] at hl
  omega

theorem slotTree_perm_range (count : Nat) : (slotTree count 0).inOrder.Perm (List.range count) := by
  have hsub : List.range count ⊆ (slotTree count 0).inOrder :=
    fun s hs => mem_slotTree_zero s (List.mem_range.mp hs)
  have hlen : (slotTree count 0).inOrder.length ≤ (List.range count).length := by
    simp
  exact ((List.nodup_range.subperm hsub).perm_of_length_le hlen).symm

theorem map_fst_numbered (slots : List Nat) :
    (numbered 0 slots).map Prod.fst = List.range slots.length := by
  rw [numbered, List.map_map, List.range_eq_range', ← List.zipIdx_map_snd 0 slots]
  rfl

theorem positions_perm_range (count : Nat) :
    ((placements count).map Prod.fst).Perm (List.range count) := by
  have h := (placements_perm count).map Prod.fst
  rw [map_fst_numbered, BinTree.length_inOrder, size_slotTree] at h
  exact h.symm

/-- Writing placements at different positions within an array succeeds, and leaves the other
positions as they were. -/
theorem write_placements (ps : List Placement) (slots : Array Nat)
    (hin : ∀ p ∈ ps, p.1 < slots.size) (hnodup : (ps.map Prod.fst).Nodup) :
    ∃ out, ps.foldlM (fun slots (position, slot) => Checked.set slots position slot) slots =
        .ok out ∧ out.size = slots.size ∧ (∀ p ∈ ps, out[p.1]? = some p.2) ∧
      ∀ i, i ∉ ps.map Prod.fst → out[i]? = slots[i]? := by
  induction ps generalizing slots with
  | nil => exact ⟨slots, rfl, rfl, by simp, fun _ _ => rfl⟩
  | cons p ps ih =>
    obtain ⟨position, slot⟩ := p
    have hp : position < slots.size := hin (position, slot) (by simp)
    rw [List.map_cons, List.nodup_cons] at hnodup
    obtain ⟨out, hout, hsize, hwritten, hother⟩ := ih (slots.set position slot hp)
      (fun p hm => by simpa using hin p (List.mem_cons_of_mem _ hm)) hnodup.2
    refine ⟨out, ?_, by simpa using hsize, ?_, ?_⟩
    · rw [List.foldlM_cons]
      simp only [Checked.set_of_lt slots slot hp]
      exact hout
    · intro p hm
      rcases List.mem_cons.mp hm with rfl | hm
      · rw [hother position hnodup.1]
        simp [hp]
      · exact hwritten p hm
    · intro i hi
      rw [List.map_cons, List.mem_cons, not_or] at hi
      rw [hother i hi.2, Array.getElem?_set_ne hp (Ne.symm hi.1)]

theorem targetSlots_eq (count : Nat) :
    targetSlots count = .ok (slotTree count 0).inOrder.toArray := by
  have hpositions := positions_perm_range count
  obtain ⟨out, hout, hsize, hwritten, -⟩ := write_placements (placements count)
    (Array.replicate count 0)
    (fun p hp => by simpa using hpositions.subset (List.mem_map_of_mem hp))
    (hpositions.symm.nodup List.nodup_range)
  rw [targetSlots, hout]
  congr 1
  apply Array.ext_getElem?
  intro i
  by_cases hi : i < (slotTree count 0).inOrder.length
  · have hm : (i, (slotTree count 0).inOrder[i]) ∈ numbered 0 (slotTree count 0).inOrder := by
      simp [numbered, List.mem_zipIdx_iff_getElem?]
    rw [hwritten _ ((placements_perm count).subset hm)]
    simp
  · have hle : count ≤ i := by simpa using hi
    simp [hsize, hle]

end IntervalIndex.Packed
