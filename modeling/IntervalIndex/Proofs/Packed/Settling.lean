import IntervalIndex.Packed.Arrange
import Mathlib.Data.Finset.Card

namespace IntervalIndex.Packed.Arrangement

variable {α : Type}

def settled (slots : Array Nat) : Finset Nat :=
  (Finset.range slots.size).filter fun i => slots[i]? = some i

theorem mem_settled {slots : Array Nat} {i : Nat} : i ∈ settled slots ↔ slots[i]? = some i := by
  simp only [settled, Finset.mem_filter, Finset.mem_range, and_iff_right_iff_imp]
  exact fun h => (Array.getElem?_eq_some_iff.mp h).1

theorem card_settled_le (slots : Array Nat) : (settled slots).card ≤ slots.size := by
  simpa only [settled, Finset.card_range] using
    Finset.card_filter_le (Finset.range slots.size) fun i => slots[i]? = some i

/-- A swap settles the place that it sends a value to, and unsettles none. -/
theorem settled_swap {slots : Array Nat} (hnodup : slots.toList.Nodup) {i j : Nat}
    (hi : i < slots.size) (hj : j < slots.size) (hij : slots[i] = j) (hne : j ≠ i) :
    settled slots ⊂ settled (slots.swap i j hi hj) := by
  have hj' : j ∉ settled slots := by
    rw [mem_settled, Array.getElem?_eq_some_iff]
    rintro ⟨_, h⟩
    exact hne (hnodup.getElem_inj_iff.mp (h.trans hij.symm))
  refine Finset.ssubset_iff_of_subset ?_ |>.mpr ⟨j, ?_, hj'⟩
  · intro k hk
    have hkj : j ≠ k := fun h => hj' (h ▸ hk)
    rw [mem_settled] at hk ⊢
    have hki : i ≠ k := by
      rintro rfl
      rw [Array.getElem?_eq_getElem hi, hij] at hk
      exact hne (Option.some.inj hk)
    rw [Array.getElem?_swap, if_neg hkj, if_neg hki, hk]
  · rw [mem_settled, Array.getElem?_swap, if_pos rfl, hij]

theorem getElem?_swap_moved {β : Type} (xs : Array β) {i j : Nat} (hi : i < xs.size)
    (hj : j < xs.size) (k : Nat) :
    (xs.swap i j hi hj)[if k = i then j else if k = j then i else k]? = xs[k]? := by
  rw [Array.getElem?_swap]
  split
  · next h => subst h; simp [hi]
  · split
    · next hki hkj => subst hkj; simp [hki, hj]
    · next hki hkj => rw [if_neg (Ne.symm hkj), if_neg (Ne.symm hki)]

/-- What holds of the values and slots on their way from a first arrangement. -/
structure Follows (values : Array α) (slots : Array Nat) (a : Arrangement α) : Prop where
  size_eq : a.values.size = values.size
  slots_perm : a.slots.toList.Perm (List.range values.size)
  /-- Each value keeps its slot beside it. -/
  together : ∀ {p s : Nat} {v : α}, slots[p]? = some s → values[p]? = some v →
    ∃ q : Nat, a.slots[q]? = some s ∧ a.values[q]? = some v
  cursor_le : a.cursor ≤ values.size
  arrived : ∀ i < a.cursor, a.slots[i]? = some i
  swaps_le : a.swaps ≤ (settled a.slots).card

variable {values : Array α} {slots : Array Nat} {a : Arrangement α}

theorem follows_start (h : slots.toList.Perm (List.range values.size)) :
    Follows values slots (start values slots) where
  size_eq := rfl
  slots_perm := h
  together hs hv := ⟨_, hs, hv⟩
  cursor_le := Nat.zero_le _
  arrived _ hi := absurd hi (Nat.not_lt_zero _)
  swaps_le := Nat.zero_le _

theorem Follows.slots_size (h : Follows values slots a) : a.slots.size = values.size := by
  simpa using h.slots_perm.length_eq

theorem Follows.slot_lt (h : Follows values slots a) {i : Nat} (hi : i < a.slots.size) :
    a.slots[i] < values.size :=
  List.mem_range.mp (h.slots_perm.subset (Array.getElem_mem_toList hi))

theorem Follows.swaps_le_size (h : Follows values slots a) : a.swaps ≤ values.size :=
  h.slots_size ▸ h.swaps_le.trans (card_settled_le a.slots)

theorem Follows.advance (h : Follows values slots a) (hc : a.cursor < values.size)
    (hs : a.slots[a.cursor]? = some a.cursor) :
    Follows values slots ⟨a.values, a.slots, a.cursor + 1, a.swaps⟩ where
  size_eq := h.size_eq
  slots_perm := h.slots_perm
  together := h.together
  cursor_le := hc
  arrived i hi := by
    rcases Nat.lt_succ_iff_lt_or_eq.mp hi with hi | rfl
    · exact h.arrived i hi
    · exact hs
  swaps_le := h.swaps_le

theorem Follows.swap (h : Follows values slots a) (hi : a.cursor < a.slots.size)
    (hv : a.cursor < a.values.size) {j : Nat} (hj : j < a.slots.size) (hjv : j < a.values.size)
    (hs : a.slots[a.cursor] = j) (hne : j ≠ a.cursor) :
    Follows values slots ⟨a.values.swap a.cursor j hv hjv, a.slots.swap a.cursor j hi hj,
      a.cursor, a.swaps + 1⟩ := by
  have hnodup : a.slots.toList.Nodup := h.slots_perm.symm.nodup List.nodup_range
  have hset := settled_swap hnodup hi hj hs hne
  refine ⟨by simpa using h.size_eq, (Array.swap_perm hi hj).toList.trans h.slots_perm, ?_,
    h.cursor_le, ?_, h.swaps_le.trans_lt (Finset.card_lt_card hset)⟩
  · intro p s v hs hv
    obtain ⟨q, hq, hqv⟩ := h.together hs hv
    exact ⟨_, (getElem?_swap_moved _ _ _ q).trans hq, (getElem?_swap_moved _ _ _ q).trans hqv⟩
  · intro k hk
    exact mem_settled.mp (hset.1 (mem_settled.mpr (h.arrived k hk)))

/-- A step keeps what holds, and brings the walk along the cycles one step on until it has ended. -/
theorem Follows.step (h : Follows values slots a) :
    ∃ b, a.step = .ok b ∧ Follows values slots b ∧
      (b.cursor = values.size ∨
        a.cursor < values.size ∧ b.cursor + b.swaps = a.cursor + a.swaps + 1) := by
  by_cases hc : a.cursor < values.size
  · have hi : a.cursor < a.slots.size := h.slots_size ▸ hc
    have hv : a.cursor < a.values.size := h.size_eq ▸ hc
    by_cases hs : a.slots[a.cursor] = a.cursor
    · have hs' := Array.getElem?_eq_some_iff.mpr ⟨hi, hs⟩
      refine ⟨_, ?_, h.advance hc hs', .inr ⟨hc, by simp; omega⟩⟩
      simp only [Arrangement.step, if_pos hv, Checked.get_of_lt _ hi]
      simp [bind, Except.bind, hs, pure, Except.pure]
    · have hj : a.slots[a.cursor] < a.slots.size := h.slots_size ▸ h.slot_lt hi
      have hjv : a.slots[a.cursor] < a.values.size := h.size_eq ▸ h.slot_lt hi
      refine ⟨_, ?_, h.swap hi hv hj hjv rfl hs, .inr ⟨hc, by simp; omega⟩⟩
      simp only [Arrangement.step, if_pos hv, Checked.get_of_lt _ hi]
      simp [bind, Except.bind, hs, Checked.swap_of_lt _ hv hjv, Checked.swap_of_lt _ hi hj, pure,
        Except.pure]
  · have hv : ¬ a.cursor < a.values.size := h.size_eq ▸ hc
    refine ⟨a, ?_, h, .inl (Nat.le_antisymm h.cursor_le (Nat.not_lt.mp hc))⟩
    simp only [Arrangement.step, if_neg hv]
    rfl

theorem Follows.steps (h : Follows values slots a) (fuel : Nat)
    (hfuel : a.cursor = values.size ∨ 2 * values.size ≤ a.cursor + a.swaps + fuel) :
    ∃ b, steps fuel a = .ok b ∧ Follows values slots b ∧ b.cursor = values.size := by
  induction fuel generalizing a with
  | zero =>
    have hc := h.cursor_le
    have hs := h.swaps_le_size
    exact ⟨a, rfl, h, by omega⟩
  | succ fuel ih =>
    obtain ⟨b, hb, hfollows, hcount⟩ := h.step
    have hcursor : b.cursor = values.size ∨ 2 * values.size ≤ b.cursor + b.swaps + fuel := by
      omega
    obtain ⟨c, hc, hlast⟩ := ih hfollows hcursor
    refine ⟨c, ?_, hlast⟩
    rw [Arrangement.steps, hb]
    exact hc

theorem Follows.exists_steps (h : Follows values slots a) (n : Nat) :
    ∃ b, Arrangement.steps n a = .ok b ∧ Follows values slots b := by
  induction n generalizing a with
  | zero => exact ⟨a, rfl, h⟩
  | succ n ih =>
    obtain ⟨b, hb, hfollows, -⟩ := h.step
    obtain ⟨c, hc, hlast⟩ := ih hfollows
    refine ⟨c, ?_, hlast⟩
    rw [Arrangement.steps, hb]
    exact hc

theorem Follows.steps_of_ended (h : Follows values slots a) (hcursor : a.cursor = values.size)
    (n : Nat) : Arrangement.steps n a = .ok a := by
  induction n with
  | zero => rfl
  | succ n ih =>
    have hend : ¬ a.cursor < a.values.size := by
      rw [h.size_eq, hcursor]
      exact Nat.lt_irrefl _
    have hstep : a.step = .ok a := by
      simp only [Arrangement.step, if_neg hend]
      rfl
    rw [Arrangement.steps, hstep]
    exact ih

theorem steps_add (m n : Nat) (a : Arrangement α) :
    steps (m + n) a = (steps m a).bind (steps n) := by
  induction m generalizing a with
  | zero => rw [Nat.zero_add]; rfl
  | succ m ih =>
    rw [Nat.succ_add, steps, steps]
    cases a.step with
    | error f => rfl
    | ok b => exact ih b

theorem Follows.slots_eq (h : Follows values slots a) (hcursor : a.cursor = values.size) :
    a.slots = Array.range values.size := by
  apply Array.ext_getElem?
  intro i
  by_cases hi : i < values.size
  · simp [h.arrived i (hcursor ▸ hi), hi]
  · have hle : values.size ≤ i := Nat.not_lt.mp hi
    simp [h.slots_size, hle]

theorem Follows.value_at_slot (h : Follows values slots a) (hcursor : a.cursor = values.size)
    {p s : Nat} {v : α} (hs : slots[p]? = some s) (hv : values[p]? = some v) :
    a.values[s]? = some v := by
  obtain ⟨q, hq, hqv⟩ := h.together hs hv
  have hlt : q < values.size := by
    rw [← h.slots_size]
    exact (Array.getElem?_eq_some_iff.mp hq).1
  have hqs : q = s := Option.some.inj ((h.arrived q (hcursor ▸ hlt)).symm.trans hq)
  exact hqs ▸ hqv

end IntervalIndex.Packed.Arrangement

namespace IntervalIndex.Packed

variable {α : Type}

theorem arrange_follows {values : Array α} {slots : Array Nat}
    (h : slots.toList.Perm (List.range values.size)) :
    ∃ a, arrange values slots = .ok a ∧ Arrangement.Follows values slots a ∧
      a.cursor = values.size :=
  (Arrangement.follows_start h).steps (2 * values.size) (.inr (by simp))

theorem arrange_spec {values : Array α} {slots : Array Nat}
    (h : slots.toList.Perm (List.range values.size)) :
    ∃ a, arrange values slots = .ok a ∧ a.swaps ≤ values.size ∧
      a.slots = Array.range values.size ∧ a.values.size = values.size ∧
      ∀ {p s : Nat} {v : α}, slots[p]? = some s → values[p]? = some v → a.values[s]? = some v := by
  obtain ⟨a, ha, hfollows, hcursor⟩ := arrange_follows h
  exact ⟨a, ha, hfollows.swaps_le_size, hfollows.slots_eq hcursor, hfollows.size_eq,
    hfollows.value_at_slot hcursor⟩

/-- Whatever permutation the slots are, following its cycles finds every place it looks up and comes to
an end. By then there were at most as many swaps as values, the slots are all in order, and each value
stands in the slot that was beside it. -/
theorem arrange_permutation {values : Array α} {slots : Array Nat}
    (h : slots.toList.Perm (List.range values.size)) :
    (∀ n, ∃ a, (Arrangement.start values slots).steps n = .ok a ∧ a.swaps ≤ values.size) ∧
    ∃ a, arrange values slots = .ok a ∧ a.cursor = values.size ∧
      (∀ n, 2 * values.size ≤ n → (Arrangement.start values slots).steps n = .ok a) ∧
      a.swaps ≤ values.size ∧ a.slots = Array.range values.size ∧
      a.values.size = values.size ∧
      ∀ p : Nat, (slots[p]?.bind fun slot => a.values[slot]?) = values[p]? := by
  have hstart := Arrangement.follows_start h
  obtain ⟨a, ha, hfollows, hcursor⟩ := arrange_follows h
  have hsize : slots.size = values.size := hstart.slots_size
  refine ⟨fun n => ?_, a, ha, hcursor, fun n hn => ?_, hfollows.swaps_le_size,
    hfollows.slots_eq hcursor, hfollows.size_eq, fun p => ?_⟩
  · obtain ⟨b, hb, hb'⟩ := hstart.exists_steps n
    exact ⟨b, hb, hb'.swaps_le_size⟩
  · obtain ⟨more, rfl⟩ := Nat.exists_eq_add_of_le hn
    have hall : (Arrangement.start values slots).steps (2 * values.size) = .ok a := ha
    rw [Arrangement.steps_add, hall]
    exact hfollows.steps_of_ended hcursor more
  · by_cases hp : p < values.size
    · have hs := Array.getElem?_eq_getElem (hsize.symm ▸ hp)
      have hv := Array.getElem?_eq_getElem hp
      rw [hs, hv, Option.bind_some, hfollows.value_at_slot hcursor hs hv]
    · have hle : values.size ≤ p := Nat.not_lt.mp hp
      rw [Array.getElem?_eq_none (hsize.symm ▸ hle), Array.getElem?_eq_none hle]
      rfl

/-- A cycle of three places, which is not its own inverse, and a value that stays. -/
theorem arrange_permutation_cycle :
    ([2, 0, 1, 3] : List Nat).Perm (List.range 4) ∧
    ∃ a, arrange #['a', 'b', 'c', 'd'] #[2, 0, 1, 3] = .ok a ∧ a.swaps ≤ 4 ∧
      a.slots = #[0, 1, 2, 3] ∧ a.values[2]? = some 'a' ∧ a.values[0]? = some 'b' ∧
      a.values[1]? = some 'c' ∧ a.values[3]? = some 'd' := by
  have hperm : (#[2, 0, 1, 3] : Array Nat).toList.Perm
      (List.range (#['a', 'b', 'c', 'd'] : Array Char).size) := by decide
  obtain ⟨-, a, ha, -, -, hswaps, hslots, -, hvalues⟩ := arrange_permutation hperm
  exact ⟨hperm, a, ha, hswaps, hslots, hvalues 0, hvalues 1, hvalues 2, hvalues 3⟩

end IntervalIndex.Packed
