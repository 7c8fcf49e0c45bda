import IntervalIndex.Proofs.Packed.Packing
import IntervalIndex.Proofs.Packed.WordWidth
import IntervalIndex.Proofs.Tree.PrunedSearch

namespace IntervalIndex

inductive Side where
  | left
  | right
deriving DecidableEq

namespace LinkTree

variable {ν α : Type}

def child? (t : LinkTree ν α) : Side → ν → Option ν
  | .left => t.left?
  | .right => t.right?

def follow (t : LinkTree ν α) : List Side → ν → Option ν
  | [], n => some n
  | side :: way, n => (t.child? side n).bind (t.follow way)

def nodeAt? (t : LinkTree ν α) (way : List Side) : Option ν := t.root?.bind (t.follow way)

theorem follow_concat (t : LinkTree ν α) (way : List Side) (side : Side) (n : ν) :
    t.follow (way ++ [side]) n = (t.follow way n).bind (t.child? side) := by
  induction way generalizing n with
  | nil => simp [follow]
  | cons first way ih =>
    cases hc : t.child? first n <;> simp [follow, hc, ih]

theorem nodeAt?_concat (t : LinkTree ν α) (way : List Side) (side : Side) :
    t.nodeAt? (way ++ [side]) = (t.nodeAt? way).bind (t.child? side) := by
  cases hroot : t.root? <;> simp [nodeAt?, hroot, follow_concat]

theorem exists_follow_height (t : LinkTree ν α) (o : Option ν) (h : (t.below o).height ≠ 0) :
    ∃ way n, o.bind (t.follow way) = some n ∧ way.length + 1 = (t.below o).height := by
  induction o using t.below_induction with
  | none => exact absurd rfl h
  | some n ihl ihr =>
    have hside : ∀ side, ((t.below (t.child? side n)).height ≠ 0 →
        ∃ way m, (t.child? side n).bind (t.follow way) = some m ∧
          way.length + 1 = (t.below (t.child? side n)).height) →
        ∃ way m, t.follow way n = some m ∧ way.length = (t.below (t.child? side n)).height := by
      intro side ih
      by_cases hleaf : (t.below (t.child? side n)).height = 0
      · exact ⟨[], n, rfl, hleaf.symm⟩
      · obtain ⟨way, m, hway, hlength⟩ := ih hleaf
        exact ⟨side :: way, m, hway, hlength⟩
    rw [below_some, BinTree.height]
    rcases Nat.le_total (t.below (t.left? n)).height (t.below (t.right? n)).height with hle | hle
    · obtain ⟨way, m, hway, hlength⟩ := hside .right ihr
      exact ⟨way, m, hway, by rw [Nat.max_eq_right hle, hlength]; rfl⟩
    · obtain ⟨way, m, hway, hlength⟩ := hside .left ihl
      exact ⟨way, m, hway, by rw [Nat.max_eq_left hle, hlength]; rfl⟩

end LinkTree

namespace Side

/-- How many ways of the same length turn left where this one turns right. -/
def place : List Side → Nat
  | [] => 0
  | .left :: way => place way
  | .right :: way => 2 ^ way.length + place way

theorem place_lt (way : List Side) : place way < 2 ^ way.length := by
  induction way with
  | nil => exact Nat.one_pos
  | cons side way ih => cases side <;> simp only [place, List.length_cons, Nat.pow_succ'] <;> omega

theorem place_replicate_left (n : Nat) : place (.replicate n .left) = 0 := by
  induction n with
  | zero => rfl
  | succ n ih => exact ih

/-- Of two ways of one length, one parts to the left from the other. -/
def LeftOf (way way' : List Side) : Prop :=
  ∃ common rest rest', way = common ++ .left :: rest ∧ way' = common ++ .right :: rest'

theorem LeftOf.place_lt {way way' : List Side} (h : LeftOf way way')
    (hlength : way.length = way'.length) : place way < place way' := by
  obtain ⟨common, rest, rest', rfl, rfl⟩ := h
  have hrest : rest.length = rest'.length := by simpa using hlength
  induction common with
  | nil =>
    have hlt := Side.place_lt rest
    rw [hrest] at hlt
    simp only [List.nil_append, place]
    omega
  | cons side common ih =>
    have ih := ih (by simpa using hlength)
    cases side <;> simp only [List.cons_append, place, List.length_append, List.length_cons, hrest]
    all_goals omega

theorem eq_of_place {way way' : List Side} (hlength : way.length = way'.length)
    (hplace : place way = place way') : way = way' := by
  induction way generalizing way' with
  | nil => exact (List.eq_nil_of_length_eq_zero hlength.symm).symm
  | cons side way ih =>
    cases way' with
    | nil => cases hlength
    | cons side' way' =>
      have hrest : way.length = way'.length := by simpa using hlength
      have hlt := place_lt way
      have hlt' := place_lt way'
      rw [← hrest] at hlt'
      cases side <;> cases side' <;> simp only [place, ← hrest] at hplace
      · rw [ih hrest hplace]
      · omega
      · omega
      · rw [ih hrest (Nat.add_left_cancel hplace)]

def slot : Side → Nat → Nat
  | .left => Packed.leftSlot
  | .right => Packed.rightSlot

theorem slot_place (side : Side) (way : List Side) (s : Nat) :
    (side.slot s + 1) * 2 ^ way.length + place way =
      (s + 1) * 2 ^ (side :: way).length + place (side :: way) := by
  cases side <;> simp only [slot, place, Packed.leftSlot, Packed.rightSlot, List.length_cons] <;> ring

theorem exists_slot {s : Nat} (h : s ≠ 0) : ∃ side parent, s = slot side parent ∧ parent < s := by
  rcases Nat.even_or_odd' s with ⟨k, rfl | rfl⟩
  · exact ⟨.right, k - 1, by simp only [slot, Packed.rightSlot]; omega, by omega⟩
  · exact ⟨.left, k, rfl, by omega⟩

end Side

namespace PackedTree

open Packed Side

variable {T : PosType} {α : Type} {t : PackedTree T α}

theorem child?_eq_some_iff {slot child : Nat} :
    t.child? slot = some child ↔ child = slot ∧ child < t.size := by
  simp only [child?, Option.ite_none_right_eq_some, Option.some.injEq]
  exact ⟨fun ⟨h, heq⟩ => ⟨heq.symm, heq ▸ h⟩, fun ⟨heq, h⟩ => ⟨heq ▸ h, heq.symm⟩⟩

theorem link_eq_some_iff {side : Side} {slot child : Nat} :
    t.toLinkTree.child? side slot = some child ↔ child = side.slot slot ∧ child < t.size := by
  cases side <;> exact child?_eq_some_iff

/-- A way down leads as far to the right on its level as it has ways of its length on its left. -/
theorem follow_eq_some_iff {slot s : Nat} (h : slot < t.size) (way : List Side) :
    t.toLinkTree.follow way slot = some s ↔
      s + 1 = (slot + 1) * 2 ^ way.length + place way ∧ s < t.size := by
  induction way generalizing slot with
  | nil =>
    simp only [LinkTree.follow, Option.some.injEq, List.length_nil, place]
    omega
  | cons side way ih =>
    rw [← slot_place, LinkTree.follow, Option.bind_eq_some_iff]
    constructor
    · rintro ⟨child, hchild, hs⟩
      obtain ⟨rfl, hlt⟩ := link_eq_some_iff.mp hchild
      exact (ih hlt).mp hs
    · rintro ⟨hs, hlt⟩
      have hpow : 0 < 2 ^ way.length := Nat.two_pow_pos _
      have hle : side.slot slot + 1 ≤ (side.slot slot + 1) * 2 ^ way.length :=
        Nat.le_mul_of_pos_right _ hpow
      have hin : side.slot slot < t.size := by omega
      exact ⟨_, link_eq_some_iff.mpr ⟨rfl, hin⟩, (ih hin).mpr ⟨hs, hlt⟩⟩

theorem nodeAt?_eq_some_iff {way : List Side} {slot : Nat} :
    t.toLinkTree.nodeAt? way = some slot ↔
      slot + 1 = 2 ^ way.length + place way ∧ slot < t.size := by
  rw [LinkTree.nodeAt?, Option.bind_eq_some_iff]
  constructor
  · rintro ⟨root, hroot, hslot⟩
    obtain ⟨rfl, hlt⟩ := child?_eq_some_iff.mp hroot
    simpa using (follow_eq_some_iff hlt way).mp hslot
  · rintro ⟨hslot, hlt⟩
    have hpos : 0 < t.size := by omega
    exact ⟨0, child?_eq_some_iff.mpr ⟨rfl, hpos⟩,
      (follow_eq_some_iff hpos way).mpr ⟨by simpa using hslot, hlt⟩⟩

theorem exists_way {slot : Nat} (h : slot < t.size) :
    ∃ way, t.toLinkTree.nodeAt? way = some slot := by
  induction slot using Nat.strongRecOn with
  | ind slot ih =>
    by_cases hroot : slot = 0
    · subst hroot
      exact ⟨[], nodeAt?_eq_some_iff.mpr ⟨rfl, h⟩⟩
    · obtain ⟨side, parent, rfl, hlt⟩ := exists_slot hroot
      obtain ⟨way, hway⟩ := ih parent hlt (Nat.lt_trans hlt h)
      refine ⟨way ++ [side], ?_⟩
      rw [LinkTree.nodeAt?_concat, hway]
      exact link_eq_some_iff.mpr ⟨rfl, h⟩

theorem log2_of_nodeAt? {way : List Side} {slot : Nat}
    (h : t.toLinkTree.nodeAt? way = some slot) : (slot + 1).log2 = way.length := by
  obtain ⟨hslot, -⟩ := nodeAt?_eq_some_iff.mp h
  have hplace := place_lt way
  refine (Nat.log2_eq_iff (Nat.succ_ne_zero slot)).mpr ⟨by omega, ?_⟩
  rw [Nat.pow_succ']
  omega

theorem way_unique {way way' : List Side} {slot : Nat}
    (h : t.toLinkTree.nodeAt? way = some slot) (h' : t.toLinkTree.nodeAt? way' = some slot) :
    way = way' := by
  have hlength : way.length = way'.length := (log2_of_nodeAt? h).symm.trans (log2_of_nodeAt? h')
  obtain ⟨hslot, -⟩ := nodeAt?_eq_some_iff.mp h
  obtain ⟨hslot', -⟩ := nodeAt?_eq_some_iff.mp h'
  rw [hslot, hlength] at hslot'
  exact eq_of_place hlength (Nat.add_left_cancel hslot')

theorem pow_le_size (h : t.size ≠ 0) {n : Nat} : 2 ^ n ≤ t.size ↔ n < t.depth := by
  rw [depth, if_neg h, Nat.lt_succ_iff, Nat.le_log2 h]

theorem length_lt_depth {way : List Side} {slot : Nat}
    (h : t.toLinkTree.nodeAt? way = some slot) : way.length < t.depth := by
  obtain ⟨hslot, hlt⟩ := nodeAt?_eq_some_iff.mp h
  exact (pow_le_size (by omega)).mp (by omega)

theorem height_unfold_le (t : PackedTree T α) : t.toLinkTree.unfold.height ≤ t.depth := by
  by_cases hleaf : t.toLinkTree.unfold.height = 0
  · rw [hleaf]
    exact Nat.zero_le _
  · obtain ⟨way, slot, hway, hlength⟩ := t.toLinkTree.exists_follow_height _ hleaf
    rw [LinkTree.unfold, ← hlength]
    exact length_lt_depth hway

theorem exists_nodeAt? (way : List Side) (h : 2 ^ way.length + place way ≤ t.size) :
    ∃ slot, t.toLinkTree.nodeAt? way = some slot ∧ slot + 1 = 2 ^ way.length + place way := by
  have hpow : 0 < 2 ^ way.length := Nat.two_pow_pos _
  exact ⟨2 ^ way.length + place way - 1, nodeAt?_eq_some_iff.mpr (by omega), by omega⟩

theorem exists_nodeAt?_of_full {way : List Side} (h : way.length + 1 < t.depth) :
    ∃ slot, t.toLinkTree.nodeAt? way = some slot := by
  have hsize : t.size ≠ 0 := by
    intro hzero
    simp [depth, hzero] at h
  have hpow := (pow_le_size hsize).mpr h
  have hplace := place_lt way
  rw [Nat.pow_succ'] at hpow
  obtain ⟨slot, hslot, -⟩ := exists_nodeAt? (t := t) way (by omega)
  exact ⟨slot, hslot⟩

theorem exists_nodeAt?_of_leftOf {way way' : List Side} {slot' : Nat}
    (hlength : way.length = way'.length) (hleft : LeftOf way way')
    (h : t.toLinkTree.nodeAt? way' = some slot') :
    ∃ slot < slot', t.toLinkTree.nodeAt? way = some slot := by
  obtain ⟨hslot', hlt⟩ := nodeAt?_eq_some_iff.mp h
  have hplace := hleft.place_lt hlength
  rw [← hlength] at hslot'
  obtain ⟨slot, hslot, hnumber⟩ := exists_nodeAt? (t := t) way (by omega)
  exact ⟨slot, by omega, hslot⟩

theorem exists_longest_way (h : t.size ≠ 0) :
    ∃ way slot, t.toLinkTree.nodeAt? way = some slot ∧ way.length + 1 = t.depth := by
  have hlength : (List.replicate t.size.log2 Side.left).length = t.size.log2 :=
    List.length_replicate
  have hroom : 2 ^ t.size.log2 ≤ t.size := Nat.log2_self_le h
  obtain ⟨slot, hslot, -⟩ := exists_nodeAt? (t := t) (.replicate t.size.log2 .left)
    (by rwa [place_replicate_left, hlength])
  exact ⟨_, slot, hslot, by rw [hlength, depth, if_neg h]⟩

theorem depth_eq_sub_leadingZeros (t : PackedTree T α) {bits : Nat} (h : t.size < 2 ^ bits) :
    t.depth = bits - leadingZeros bits t.size := by
  rw [depth]
  split
  · next hzero => simp [hzero]
  · next hne =>
    have hzeros := leadingZeros_add_log2 hne h
    omega

end PackedTree

/-- A tree whose nodes are numbered level by level, from left to right, every level but the last one
being full. The depth counts the nodes on the longest way down. -/
structure LinkTree.Complete {α : Type} (t : LinkTree Nat α) (size depth : Nat) : Prop where
  link_lt : ∀ side slot child, t.child? side slot = some child → child < size
  way_lt : ∀ way slot, t.nodeAt? way = some slot → slot < size
  one_way : ∀ slot < size, ∃! way, t.nodeAt? way = some slot
  full : ∀ way : List Side, way.length + 1 < depth → ∃ slot, t.nodeAt? way = some slot
  from_left : ∀ way way' slot', way.length = way'.length → Side.LeftOf way way' →
    t.nodeAt? way' = some slot' → ∃ slot < slot', t.nodeAt? way = some slot
  within_depth : ∀ way slot, t.nodeAt? way = some slot → way.length + 1 ≤ depth
  reaches_depth : size ≠ 0 → ∃ way slot, t.nodeAt? way = some slot ∧ way.length + 1 = depth
  depth_of_empty : size = 0 → depth = 0

namespace PackedTree

open Packed Side

variable {T : PosType} {α : Type}

theorem complete (t : PackedTree T α) : t.toLinkTree.Complete t.size t.depth where
  link_lt _ _ _ h := (link_eq_some_iff.mp h).2
  way_lt _ _ h := (nodeAt?_eq_some_iff.mp h).2
  one_way _ h := by
    obtain ⟨way, hway⟩ := exists_way h
    exact ⟨way, hway, fun way' hway' => way_unique hway' hway⟩
  full _ h := exists_nodeAt?_of_full h
  from_left _ _ _ hlength hleft h := exists_nodeAt?_of_leftOf hlength hleft h
  within_depth _ _ h := length_lt_depth h
  reaches_depth h := exists_longest_way h
  depth_of_empty h := if_pos h

/-- Whatever its size, a tree in slots is complete, and its depth counts its levels. In a word that
holds the size, the depth is the number of bits behind the leading zeros. -/
theorem complete_below_root (t : PackedTree T α) :
    t.toLinkTree.Complete t.size t.depth ∧
      ∀ bits, t.size < 2 ^ bits → t.depth = bits - leadingZeros bits t.size :=
  ⟨t.complete, fun _ h => t.depth_eq_sub_leadingZeros h⟩

theorem complete_below_root_tied : ∃ t, ofSorted id tiedSpans = .ok t ∧
    t.toLinkTree.Complete 4 3 ∧ 3 = 64 - leadingZeros 64 4 := by
  obtain ⟨t, ht, -, hholds⟩ := @ofSorted_ok .i64 _ id tiedSpans (by decide) (by decide)
  have hsize : t.size = 4 := hholds.size_eq
  have hdepth : t.depth = 3 := by
    rw [depth, hsize]
    decide
  obtain ⟨hcomplete, hbits⟩ := t.complete_below_root
  rw [hsize, hdepth] at hcomplete hbits
  exact ⟨t, ht, hcomplete, hbits 64 (by decide)⟩

end PackedTree

end IntervalIndex
