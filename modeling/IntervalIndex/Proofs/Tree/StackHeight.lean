import IntervalIndex.Proofs.Packed.WaysDown
import IntervalIndex.Proofs.Tree.StackRoom
import IntervalIndex.Proofs.Tree.Visiting
import IntervalIndex.Proofs.Tree.Walking
import Mathlib.Data.List.Chain

namespace IntervalIndex

open Scratch

variable {ν α σ : Type} {T : PosType}

namespace LinkTree

variable {t : LinkTree ν α} {height most : Nat}

theorem Fits.length_le {stack : List ν} (h : t.Fits height stack) : stack.length ≤ height := by
  cases stack with
  | nil => exact Nat.zero_le _
  | cons n rest =>
    have hpos := t.height_left_lt n
    have htop := h.1
    rw [List.length_cons]
    omega

theorem Roomy.size_le {b : Buffer ν} (h : t.Roomy height most b) : b.size ≤ height := by
  rw [Buffer.size_eq_length]
  exact h.fits.length_le

theorem length_lt_height {way : List Side} {n m : ν} (h : t.follow way n = some m) :
    way.length < (t.subtree n).height := by
  induction way generalizing n with
  | nil => exact Nat.zero_lt_of_lt (t.height_left_lt n)
  | cons side way ih =>
    obtain ⟨child, hchild, hrest⟩ := Option.bind_eq_some_iff.mp h
    have hlt : (t.below (t.child? side n)).height < (t.subtree n).height := by
      cases side with
      | left => exact t.height_left_lt n
      | right => exact t.height_right_lt n
    rw [hchild] at hlt
    exact Nat.lt_of_le_of_lt (ih hrest) hlt

/-- Nodes from one of the tree up to the root, each the child of the next. -/
structure Ascends (t : LinkTree ν α) (path : List ν) : Prop where
  chain : path.IsChain fun child n => ∃ side, t.child? side n = some child
  root : path.getLast? = t.root?

theorem ascends_root (t : LinkTree ν α) : t.Ascends t.root?.toList := by
  cases hroot : t.root? with
  | none => exact ⟨.nil, hroot.symm⟩
  | some root => exact ⟨.singleton _, hroot.symm⟩

theorem Ascends.child {n : ν} {path : List ν} (h : t.Ascends (n :: path)) (side : Side) :
    t.Ascends ((t.child? side n).toList ++ n :: path) := by
  cases hchild : t.child? side n with
  | none => exact h
  | some child =>
    refine ⟨.cons_cons ⟨side, hchild⟩ h.chain, ?_⟩
    rw [← h.root, Option.toList_some, List.singleton_append, List.getLast?_cons_cons]

theorem Ascends.above {front path : List ν} {n : ν} (h : t.Ascends (front ++ n :: path)) :
    t.Ascends (n :: path) where
  chain := h.chain.right_of_append
  root := by rw [← h.root, List.getLast?_append_cons]

end LinkTree

namespace Walk

variable {t : LinkTree ν α} {w : Walk ν}

/-- A walk whose stack is part of the way up from its pending node, or from some node if none is
pending. -/
def Climbs (t : LinkTree ν α) (w : Walk ν) : Prop :=
  ∃ path, t.Ascends (w.pending.toList ++ path) ∧ w.stack.toStack.Sublist path

theorem climbs_start {b : Buffer ν} (hb : b.toStack = []) : (start t b).Climbs t := by
  refine ⟨[], ?_, hb ▸ List.Sublist.refl []⟩
  rw [List.append_nil]
  exact t.ascends_root

theorem Climbs.step (h : w.Climbs t) : (w.step t).2.Climbs t := by
  obtain ⟨path, hpath, hstack⟩ := h
  rw [Walk.step]
  split
  · next n hn =>
    rw [hn] at hpath
    exact ⟨n :: path, hpath.child .left, by simpa using hstack⟩
  · next hnone =>
    split
    · next n hn =>
      rw [Buffer.top?_eq_head?] at hn
      obtain ⟨rest, hrest⟩ := List.head?_eq_some_iff.mp hn
      rw [hrest, List.cons_sublist_iff] at hstack
      obtain ⟨front, above, rfl, hmem, habove⟩ := hstack
      obtain ⟨below, between, rfl⟩ := List.append_of_mem hmem
      -- the node that is left stands on the way, with the rest of the stack above it
      rw [hnone, Option.toList_none, List.nil_append, List.append_assoc, List.cons_append] at hpath
      refine ⟨n :: (between ++ above), hpath.above.child .right, ?_⟩
      have hrest' : w.stack.pop.toStack = rest := by rw [Buffer.toStack_pop, hrest, List.tail_cons]
      rw [hrest']
      exact (habove.trans (List.sublist_append_right between above)).cons n
    · exact ⟨path, hpath, hstack⟩

theorem Climbs.next (h : w.Climbs t) : (w.next t).2.Climbs t := by
  fun_induction Walk.next t w with
  | case1 w n hn ih => exact ih h.step
  | case2 w hn => exact h.step

theorem Climbs.stepped (h : w.Climbs t) (steps : Nat) : (w.stepped t steps).Climbs t := by
  induction steps generalizing w with
  | zero => exact h
  | succ steps ih =>
    rw [stepped_succ]
    exact ih h.step

theorem Climbs.after (h : w.Climbs t) (calls : Nat) : (w.after t calls).Climbs t := by
  induction calls generalizing w with
  | zero => exact h
  | succ calls ih =>
    rw [after_succ]
    exact ih h.next

theorem Climbs.exists_path (h : w.Climbs t) :
    ∃ path, t.Ascends path ∧ w.stack.toStack.Sublist path := by
  obtain ⟨path, hpath, hstack⟩ := h
  exact ⟨_, hpath, hstack.trans (List.sublist_append_right _ path)⟩

variable {height most : Nat}

theorem Fits.stepped (hmost : max 4 (2 * height) ≤ most) (h : w.Fits t height most)
    (steps : Nat) : (w.stepped t steps).Fits t height most := by
  induction steps generalizing w with
  | zero => exact h
  | succ steps ih =>
    rw [stepped_succ]
    exact ih (h.step hmost)

theorem Fits.after (hmost : max 4 (2 * height) ≤ most) (h : w.Fits t height most)
    (calls : Nat) : (w.after t calls).Fits t height most := by
  induction calls generalizing w with
  | zero => exact h
  | succ calls ih =>
    rw [after_succ]
    exact ih (h.next hmost)

end Walk

theorem Search.Fits.iterate {t : LinkTree ν α} {height most : Nat} {q : Search ν σ α}
    (hmost : max 4 (2 * height) ≤ most) (h : q.Fits t height most) (span : α → Span T)
    (query : Span T) (test : Test σ α) (steps : Nat) :
    ((Search.step t span query test)^[steps] q).Fits t height most := by
  induction steps generalizing q with
  | zero => exact h
  | succ steps ih =>
    rw [Function.iterate_succ_apply]
    exact ih (h.step hmost span query test)

/-- From an empty buffer on, no use of the tree stacks more nodes than the height at any moment, be it
between two calls of a walk or inside one, and be it in any search. -/
structure LinkTree.StacksWithin (t : LinkTree ν α) (height : Nat) (b : Buffer ν) : Prop where
  walk_size : ∀ calls steps,
    (((Walk.start t b).after t calls).stepped t steps).stack.size ≤ height
  walk_path : ∀ calls steps, ∃ path, t.Ascends path ∧
    (((Walk.start t b).after t calls).stepped t steps).stack.toStack.Sublist path
  /-- The moments inside a call are the steps that it takes. -/
  walk_call : ∀ calls, ∃ steps, ((Walk.start t b).after t calls).next t =
    (((Walk.start t b).after t calls).stepped t steps).step t
  search_size : ∀ {T : PosType} {σ : Type} (span : α → Span T) (query : Span T) (test : Test σ α)
    (s : σ), ∀ root ∈ t.root?, ∀ steps,
    ((Search.step t span query test)^[steps] (.start root s b)).candidates.size ≤ height
  /-- A search ends as one of its moments. -/
  search_run : ∀ {T : PosType} {σ : Type} (span : α → Span T) (query : Span T) (test : Test σ α)
    (s : σ), ∀ root ∈ t.root?, ∃ steps candidates state found,
    (Search.step t span query test)^[steps] (.start root s b) = ⟨candidates, state, .done found⟩ ∧
      (Search.start root s b).run t span query test = (⟨state, found.mapError .fault⟩, candidates)

theorem LinkTree.stacksWithin {t : LinkTree ν α} {height : Nat} (ht : t.unfold.height ≤ height)
    {b : Buffer ν} (hb : b.toStack = []) : t.StacksWithin height b := by
  -- the size does not depend on the storage, so any bound on that will do
  obtain ⟨most, hmost, hcapacity⟩ : ∃ most, max 4 (2 * height) ≤ most ∧ b.capacity ≤ most :=
    ⟨_, Nat.le_max_left _ _, Nat.le_max_right _ _⟩
  have hwalk := Walk.fits_start ht hb hcapacity
  refine ⟨fun calls steps => ?_, fun calls steps => ?_, fun calls => ?_, ?_, ?_⟩
  · exact ((hwalk.after hmost calls).stepped hmost steps).stack.size_le
  · exact (((Walk.climbs_start hb).after calls).stepped steps).exists_path
  · obtain ⟨steps, -, -, -, hnext⟩ := ((Walk.start t b).after t calls).exists_steps t
    exact ⟨steps, hnext⟩
  · intro T σ span query test s root hroot steps
    have hheight : (t.subtree root).height ≤ height := by
      rw [unfold, Option.mem_def.mp hroot] at ht
      exact ht
    have hsearch := Search.fits_start hmost hheight s hb hcapacity
    exact (hsearch.iterate hmost span query test steps).candidates.size_le
  · intro T σ span query test s root _
    exact ⟨_, Search.iterate_step (Nat.le_refl _)⟩

theorem PackedTree.height_unfold (t : PackedTree T α) : t.toLinkTree.unfold.height = t.depth := by
  refine Nat.le_antisymm t.height_unfold_le ?_
  by_cases hempty : t.size = 0
  · rw [depth, if_pos hempty]
    exact Nat.zero_le _
  · obtain ⟨way, slot, hway, hlength⟩ := exists_longest_way hempty
    obtain ⟨root, hroot, hfollow⟩ := Option.bind_eq_some_iff.mp hway
    rw [← hlength, LinkTree.unfold, hroot]
    exact LinkTree.length_lt_height hfollow

/-- Walks and searches never stack more nodes than their tree is high, however unbalanced it is and
whatever ends it reports, and what a walk has stacked stands on one way down from the root. For a tree
in slots the height is its depth. -/
theorem stacks_within_height :
    (∀ {ν α : Type} (t : LinkTree ν α) (b : Buffer ν), b.toStack = [] →
      t.StacksWithin t.unfold.height b) ∧
    ∀ {T : PosType} {α : Type} (t : PackedTree T α) (b : Buffer Nat), b.toStack = [] →
      t.toLinkTree.unfold.height = t.depth ∧ t.toLinkTree.StacksWithin t.depth b :=
  ⟨fun _ _ hb => LinkTree.stacksWithin (Nat.le_refl _) hb, fun t _ hb =>
    ⟨t.height_unfold, LinkTree.stacksWithin t.height_unfold_le hb⟩⟩

theorem stacks_within_height_lopsided :
    let t := LinkTree.lopsided.toLinkTree
    ((Walk.start t .fresh).stepped t 4).stack.toStack = [(2, 1), (1, 2)] ∧
      t.StacksWithin 3 .fresh ∧
      ∃ t, PackedTree.ofSorted id PackedTree.tiedSpans = .ok t ∧ t.toLinkTree.StacksWithin 3 .fresh := by
  intro t
  refine ⟨rfl, ?_, ?_⟩
  · have hheight : t.unfold.height = 3 := by
      rw [LinkTree.lopsided_unfold]
      rfl
    rw [← hheight]
    exact stacks_within_height.1 t .fresh Buffer.toStack_fresh
  · obtain ⟨t, ht, -, hholds⟩ := @PackedTree.ofSorted_ok .i64 _ id PackedTree.tiedSpans (by decide)
      (by decide)
    have hsize : t.size = 4 := hholds.size_eq
    have hdepth : t.depth = 3 := by
      rw [PackedTree.depth, hsize]
      decide
    rw [← hdepth]
    exact ⟨t, ht, (stacks_within_height.2 t .fresh Buffer.toStack_fresh).2⟩

end IntervalIndex
