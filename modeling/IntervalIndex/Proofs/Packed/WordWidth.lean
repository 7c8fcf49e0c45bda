import IntervalIndex.Packed.Tree
import IntervalIndex.Proofs.Packed.Settling
import IntervalIndex.Proofs.Packed.SlotOrder

namespace IntervalIndex.Packed

def leadingZeros (bits n : Nat) : Nat := (BitVec.ofNat bits n).clz.toNat

@[simp] theorem leadingZeros_zero (bits : Nat) : leadingZeros bits 0 = bits := by
  have hle : (BitVec.ofNat bits 0).clz ≤ BitVec.ofNat bits bits := BitVec.clz_le
  have hge : ¬ (BitVec.ofNat bits 0).clz < BitVec.ofNat bits bits :=
    fun hlt => BitVec.clz_lt_iff_ne_zero.mp hlt rfl
  rw [leadingZeros, BitVec.le_antisymm hle (BitVec.not_lt.mp hge), BitVec.toNat_ofNat,
    Nat.mod_eq_of_lt Nat.lt_two_pow_self]

theorem leadingZeros_add_log2 {bits n : Nat} (hn : n ≠ 0) (hbits : n < 2 ^ bits) :
    leadingZeros bits n + n.log2 + 1 = bits := by
  have hwidth : 0 < bits := by
    rcases Nat.eq_zero_or_pos bits with rfl | hpos
    · omega
    · exact hpos
  have hval : (BitVec.ofNat bits n).toNat = n := by
    rw [BitVec.toNat_ofNat, Nat.mod_eq_of_lt hbits]
  have hne : BitVec.ofNat bits n ≠ BitVec.ofNat bits 0 := by
    intro hzero
    rw [hzero] at hval
    exact hn (by simpa using hval.symm)
  have hlow := BitVec.two_pow_sub_clz_le_toNat_of_ne_zero hwidth hne
  have hhigh := BitVec.toNat_lt_two_pow_sub_clz (x := BitVec.ofNat bits n)
  rw [hval] at hlow hhigh
  change 2 ^ (bits - 1 - leadingZeros bits n) ≤ n at hlow
  change n < 2 ^ (bits - leadingZeros bits n) at hhigh
  have hroom : leadingZeros bits n < bits := by
    by_contra hfull
    rw [Nat.sub_eq_zero_of_le (Nat.not_lt.mp hfull)] at hhigh
    omega
  have hlog : n.log2 = bits - 1 - leadingZeros bits n := by
    refine (Nat.log2_eq_iff hn).mpr ⟨hlow, ?_⟩
    rwa [show bits - 1 - leadingZeros bits n + 1 = bits - leadingZeros bits n by omega]
  omega

namespace Word

variable (bits : Nat)

def ofNat? (n : Nat) : Option Nat := if n < 2 ^ bits then some n else none

def add? (m n : Nat) : Option Nat := ofNat? bits (m + n)

def mul? (m n : Nat) : Option Nat := ofNat? bits (m * n)

def sub? (m n : Nat) : Option Nat := if n ≤ m then some (m - n) else none

def twoPow? (n : Nat) : Option Nat := if n < bits then some (2 ^ n) else none

variable {bits}

theorem add?_of_lt {m n : Nat} (h : m + n < 2 ^ bits) : add? bits m n = some (m + n) := if_pos h

theorem mul?_of_lt {m n : Nat} (h : m * n < 2 ^ bits) : mul? bits m n = some (m * n) := if_pos h

theorem sub?_of_le {m n : Nat} (h : n ≤ m) : sub? m n = some (m - n) := if_pos h

theorem twoPow?_of_lt {n : Nat} (h : n < bits) : twoPow? bits n = some (2 ^ n) := if_pos h

theorem add?_eq_some {m n k : Nat} (h : add? bits m n = some k) : k = m + n := by
  simp only [add?, ofNat?, Option.ite_none_right_eq_some, Option.some.injEq] at h
  exact h.2.symm

variable (bits)

def leftSlot? (slot : Nat) : Option Nat := do add? bits (← mul? bits 2 slot) 1

def rightSlot? (slot : Nat) : Option Nat := do add? bits (← mul? bits 2 slot) 2

def fullLevels? (count : Nat) : Option (Nat × Nat) := do
  let full ← sub? (← sub? bits 1) (leadingZeros bits (← add? bits count 1))
  let perfect ← sub? (← twoPow? bits full) 1
  return (full, ← sub? count perfect)

def upperPosition? (lastLevel k : Nat) : Option Nat :=
  if k < lastLevel then do add? bits (← mul? bits 2 k) 1 else add? bits k lastLevel

def placeLastLevel? (full lastLevel : Nat) : Option (List Placement) :=
  (List.range lastLevel).mapM fun k => do return (← mul? bits 2 k, ← add? bits full k)

def median? (lo hi : Nat) : Option (Nat × Nat) := do
  let mid ← add? bits lo ((← sub? hi lo) / 2)
  return (mid, ← add? bits mid 1)

theorem median?_eq_some {lo hi mid next : Nat} (h : median? bits lo hi = some (mid, next)) :
    mid = lo + (hi - lo) / 2 ∧ next = mid + 1 := by
  simp only [median?, bind, Option.bind_eq_some_iff, pure, Option.some.injEq] at h
  obtain ⟨width, hwidth, mid', hmid, next', hnext, hpair⟩ := h
  obtain ⟨rfl, rfl⟩ := Prod.mk.inj hpair
  simp only [sub?, Option.ite_none_right_eq_some, Option.some.injEq] at hwidth
  rw [hwidth.2]
  exact ⟨add?_eq_some hmid, add?_eq_some hnext⟩

def placeFullLevels? (lastLevel lo hi slot : Nat) : Option (List Placement) :=
  if lo < hi then
    match _h : median? bits lo hi with
    | none => none
    | some (mid, next) => do
      let position ← upperPosition? bits lastLevel mid
      let lower ← placeFullLevels? lastLevel lo mid (← leftSlot? bits slot)
      let upper ← placeFullLevels? lastLevel next hi (← rightSlot? bits slot)
      return (position, slot) :: (lower ++ upper)
  else some []
termination_by hi - lo
decreasing_by all_goals have := median?_eq_some bits _h; omega

def placements? (count : Nat) : Option (List Placement) := do
  let (_, lastLevel) ← fullLevels? bits count
  let full ← sub? count lastLevel
  let last ← placeLastLevel? bits full lastLevel
  return last ++ (← placeFullLevels? bits lastLevel 0 full 0)

def targetSlots? (count : Nat) : Option (Array Nat) := do
  (← placements? bits count).foldlM
    (fun slots (position, slot) => (Checked.set slots position slot).toOption)
    (Array.replicate count 0)

variable {α : Type} {T : PosType}

def markSlot? (span : α → Span T) (nodes : Array (Node α)) (slot : Nat) :
    Option (Array (Node α)) := do
  let left ← leftSlot? bits slot
  let right ← rightSlot? bits slot
  let best ← (better span nodes slot left).toOption
  let best ← (better span nodes best right).toOption
  let value := (← (Checked.get nodes slot).toOption).value
  (Checked.set nodes slot ⟨value, best⟩).toOption

def markBelow? (span : α → Span T) : Nat → Array (Node α) → Option (Array (Node α))
  | 0, nodes => some nodes
  | slot + 1, nodes => do markBelow? span slot (← markSlot? bits span nodes slot)

/-- The packing of values, done in words of some width. -/
def pack? (span : α → Span T) (values : List α) : Option (Array (Node α)) := do
  let slots ← targetSlots? bits values.length
  let arrangement ← (arrange values.toArray slots).toOption
  markBelow? bits span arrangement.values.size (unmarked arrangement.values)

variable {bits}

theorem leftSlot?_of_lt {slot : Nat} (h : slot + 1 < 2 ^ bits) :
    leftSlot? (bits + 1) slot = some (leftSlot slot) := by
  have htwo : 2 ^ (bits + 1) = 2 * 2 ^ bits := Nat.pow_succ'
  simp only [leftSlot?, mul?_of_lt (show 2 * slot < 2 ^ (bits + 1) by omega)]
  exact add?_of_lt (by omega)

theorem rightSlot?_of_lt {slot : Nat} (h : slot + 1 < 2 ^ bits) :
    rightSlot? (bits + 1) slot = some (rightSlot slot) := by
  have htwo : 2 ^ (bits + 1) = 2 * 2 ^ bits := Nat.pow_succ'
  simp only [rightSlot?, mul?_of_lt (show 2 * slot < 2 ^ (bits + 1) by omega)]
  exact add?_of_lt (by omega)

theorem fullLevels?_of_lt {count : Nat} (h : count < 2 ^ bits) :
    fullLevels? (bits + 1) count = some (fullLevels count) := by
  have htwo : 2 ^ (bits + 1) = 2 * 2 ^ bits := Nat.pow_succ'
  have hroom : count + 1 < 2 ^ (bits + 1) := by omega
  have hne : count + 1 ≠ 0 := Nat.succ_ne_zero count
  have hzeros := leadingZeros_add_log2 hne hroom
  have hself := Nat.log2_self_le hne
  have hpos : 0 < 2 ^ (count + 1).log2 := Nat.two_pow_pos _
  have hfull : bits - leadingZeros (bits + 1) (count + 1) = (count + 1).log2 := by omega
  simp only [fullLevels?, bind, Option.bind, pure, sub?_of_le (show 1 ≤ bits + 1 by omega),
    Nat.add_sub_cancel, add?_of_lt hroom,
    sub?_of_le (show leadingZeros (bits + 1) (count + 1) ≤ bits by omega), hfull,
    twoPow?_of_lt (show (count + 1).log2 < bits + 1 by omega), sub?_of_le hpos,
    sub?_of_le (show 2 ^ (count + 1).log2 - 1 ≤ count by omega)]
  rfl

theorem upperPosition?_of_lt {lastLevel k : Nat} (h : upperPosition lastLevel k < 2 ^ bits) :
    upperPosition? bits lastLevel k = some (upperPosition lastLevel k) := by
  simp only [upperPosition, upperPosition?] at *
  split at h
  · next hk =>
    simp only [if_pos hk, mul?_of_lt (show 2 * k < 2 ^ bits by omega)]
    exact add?_of_lt h
  · next hk =>
    simp only [if_neg hk]
    exact add?_of_lt h

/-- Placements that a signed word can hold, positions and slots both. -/
def Held (bits : Nat) (ps : List Placement) : Prop :=
  ∀ p ∈ ps, p.1 < 2 ^ bits ∧ p.2 + 1 < 2 ^ bits

theorem placeLastLevel?_of_held {full lastLevel : Nat}
    (h : Held bits (placeLastLevel full lastLevel)) :
    placeLastLevel? (bits + 1) full lastLevel = some (placeLastLevel full lastLevel) := by
  have htwo : 2 ^ (bits + 1) = 2 * 2 ^ bits := Nat.pow_succ'
  have hplace : ∀ k ∈ List.range lastLevel,
      (do return (← mul? (bits + 1) 2 k, ← add? (bits + 1) full k)) = some (2 * k, full + k) := by
    intro k hk
    obtain ⟨hposition, hslot⟩ := h (2 * k, full + k) (List.mem_map_of_mem hk)
    simp only [mul?_of_lt (show 2 * k < 2 ^ (bits + 1) by omega),
      add?_of_lt (show full + k < 2 ^ (bits + 1) by omega)]
    rfl
  rw [placeLastLevel?, placeLastLevel]
  generalize List.range lastLevel = ks at hplace
  induction ks with
  | nil => rfl
  | cons k ks ih =>
    rw [List.mapM_cons, hplace k List.mem_cons_self, ih fun k hk => hplace k (.tail _ hk)]
    rfl

theorem median?_of_lt {lo hi : Nat} (hlt : lo < hi) (hhi : hi < 2 ^ bits) :
    median? bits lo hi = some (lo + (hi - lo) / 2, lo + (hi - lo) / 2 + 1) := by
  simp only [median?, bind, Option.bind, pure, sub?_of_le hlt.le,
    add?_of_lt (show lo + (hi - lo) / 2 < 2 ^ bits by omega),
    add?_of_lt (show lo + (hi - lo) / 2 + 1 < 2 ^ bits by omega)]

theorem placeFullLevels?_of_held {lastLevel lo hi slot : Nat} (hhi : hi < 2 ^ bits)
    (h : Held bits (placeFullLevels lastLevel lo hi slot)) :
    placeFullLevels? (bits + 1) lastLevel lo hi slot =
      some (placeFullLevels lastLevel lo hi slot) := by
  have htwo : 2 ^ (bits + 1) = 2 * 2 ^ bits := Nat.pow_succ'
  fun_induction placeFullLevels lastLevel lo hi slot with
  | case1 lo hi slot hlt mid ihl ihr =>
    simp only [Held, List.forall_mem_cons, List.forall_mem_append] at h
    obtain ⟨⟨hposition, hslot⟩, hlower, hupper⟩ := h
    have hmedian : median? (bits + 1) lo hi = some (mid, mid + 1) := median?_of_lt hlt (by omega)
    rw [placeFullLevels?, if_pos hlt, hmedian]
    simp only [upperPosition?_of_lt (show upperPosition lastLevel mid < 2 ^ (bits + 1) by omega),
      leftSlot?_of_lt hslot, rightSlot?_of_lt hslot, bind, Option.bind,
      ihl (by omega) hlower, ihr hhi hupper, pure]
  | case2 lo hi slot hle => rw [placeFullLevels?, if_neg hle]

theorem held_placements {count : Nat} (h : count < 2 ^ bits) : Held bits (placements count) := by
  intro p hp
  have hposition : p.1 < count :=
    List.mem_range.mp ((positions_perm_range count).subset (List.mem_map_of_mem hp))
  have hslot : p.2 ∈ (slotTree count 0).inOrder := by
    obtain ⟨q, hq, rfl⟩ := List.mem_map.mp ((placements_perm count).symm.subset hp)
    exact List.fst_mem_of_mem_zipIdx hq
  have hlt := lt_of_mem_slotTree hslot
  omega

theorem placements?_of_lt {count : Nat} (h : count < 2 ^ bits) :
    placements? (bits + 1) count = some (placements count) := by
  obtain ⟨hcount, -⟩ := fullLevels_spec count
  have hheld := held_placements h
  simp only [placements, Held, List.forall_mem_append] at hheld
  simp only [placements?, bind, Option.bind, fullLevels?_of_lt h,
    sub?_of_le (show (fullLevels count).2 ≤ count by omega), placeLastLevel?_of_held hheld.1,
    placeFullLevels?_of_held (show count - (fullLevels count).2 < 2 ^ bits by omega) hheld.2, pure,
    placements]

theorem toOption_bind {ε β γ : Type} (x : Except ε β) (f : β → Except ε γ) :
    (x >>= f).toOption = x.toOption >>= fun b => (f b).toOption := by
  cases x <;> rfl

theorem targetSlots?_of_lt {count : Nat} (h : count < 2 ^ bits) :
    targetSlots? (bits + 1) count = (targetSlots count).toOption := by
  simp only [targetSlots?, targetSlots, placements?_of_lt h, bind, Option.bind]
  generalize Array.replicate count 0 = slots
  induction placements count generalizing slots with
  | nil => rfl
  | cons p ps ih =>
    rw [List.foldlM_cons, List.foldlM_cons, toOption_bind]
    exact bind_congr fun slots => ih slots

theorem markSlot?_of_lt (span : α → Span T) (nodes : Array (Node α)) {slot : Nat}
    (h : slot + 1 < 2 ^ bits) :
    markSlot? (bits + 1) span nodes slot = (markSlot span nodes slot).toOption := by
  simp only [markSlot?, markSlot, leftSlot?_of_lt h, rightSlot?_of_lt h, toOption_bind]
  rfl

theorem markBelow?_of_lt (span : α → Span T) (nodes : Array (Node α)) {bound : Nat}
    (h : bound < 2 ^ bits) :
    markBelow? (bits + 1) span bound nodes = (markBelow span bound nodes).toOption := by
  induction bound generalizing nodes with
  | zero => rfl
  | succ slot ih =>
    rw [markBelow?, markBelow, toOption_bind, markSlot?_of_lt span nodes h]
    exact bind_congr fun nodes => ih nodes (Nat.lt_of_succ_lt h)

/-- A list that a signed word can count is packed in words as it is without them. -/
theorem pack?_of_lt (span : α → Span T) {values : List α} (h : values.length < 2 ^ bits) :
    pack? (bits + 1) span values = (PackedTree.pack span values).toOption := by
  have hperm : (slotTree values.length 0).inOrder.toArray.toList.Perm
      (List.range values.toArray.size) := by
    simpa using slotTree_perm_range values.length
  obtain ⟨a, ha, -, -, hsize, -⟩ := arrange_spec hperm
  have hroom : a.values.size < 2 ^ bits := by
    rw [hsize]
    simpa using h
  have hpack : PackedTree.pack span values = markBelow span a.values.size (unmarked a.values) := by
    rw [PackedTree.pack, targetSlots_eq]
    simp only [bind, Except.bind, ha, markFurthest]
  rw [hpack, ← markBelow?_of_lt span (unmarked a.values) hroom, pack?, targetSlots?_of_lt h,
    targetSlots_eq]
  change ((arrange values.toArray _).toOption >>= _) = _
  rw [ha]
  rfl

/-- For every count that a signed word can hold, the levels are split as they should be, every position
is written once and none outside the array is, and what has been written are the slots of the complete
tree as the walk in order comes to them. -/
theorem targetSlots_inOrder {count : Nat} (h : count < 2 ^ bits) :
    fullLevels? (bits + 1) count = some (fullLevels count) ∧
    count = 2 ^ (fullLevels count).1 - 1 + (fullLevels count).2 ∧
    (fullLevels count).2 < 2 ^ (fullLevels count).1 ∧
    placements? (bits + 1) count = some (placements count) ∧
    ((placements count).map Prod.fst).Perm (List.range count) ∧
    ∃ slots, targetSlots? (bits + 1) count = some slots ∧ targetSlots count = .ok slots ∧
      slots.toList = (slotTree count 0).inOrder ∧ slots.toList.Perm (List.range count) := by
  obtain ⟨hcount, hlast⟩ := fullLevels_spec count
  refine ⟨fullLevels?_of_lt h, hcount, hlast, placements?_of_lt h, positions_perm_range count,
    (slotTree count 0).inOrder.toArray, ?_, targetSlots_eq count, rfl, slotTree_perm_range count⟩
  rw [targetSlots?_of_lt h, targetSlots_eq]
  rfl

theorem targetSlots_inOrder_partial : 6 < 2 ^ 63 ∧ fullLevels? 64 6 = some (2, 3) ∧
    targetSlots? 64 6 = some #[3, 1, 4, 0, 5, 2] := by
  have hlt : 6 < 2 ^ 63 := by decide
  obtain ⟨hlevels, -, -, -, -, slots, hslots, -, horder, -⟩ := targetSlots_inOrder hlt
  have hwalk : (slotTree 6 0).inOrder = [3, 1, 4, 0, 5, 2] := by
    simp [slotTree, leftSlot, rightSlot, BinTree.inOrder]
  refine ⟨hlt, hlevels.trans (by decide), ?_⟩
  rw [hslots, Array.toList_inj.mp (horder.trans hwalk)]

end Word

end IntervalIndex.Packed
