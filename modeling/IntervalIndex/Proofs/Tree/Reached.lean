import IntervalIndex.Proofs.Tree.PrunedSearch

namespace IntervalIndex

variable {ν α : Type}

/-- A binary tree by its links alone, which may run in circles where no way from the root leads. -/
structure Links (ν α : Type) where
  root? : Option ν
  left? : ν → Option ν
  right? : ν → Option ν
  value : ν → Except Fault α
  furthest : ν → Except Fault ν

namespace Links

variable (l : Links ν α)

def Child (child node : ν) : Prop := l.left? node = some child ∨ l.right? node = some child

inductive Reached : ν → Prop
  | root {n : ν} (h : l.root? = some n) : Reached n
  | child {n c : ν} (hn : Reached n) (h : l.Child c n) : Reached c

def Unfolds : Prop := ∀ n, l.root? = some n → Acc l.Child n

theorem Reached.acc {l : Links ν α} (h : l.Unfolds) {n : ν} (hn : l.Reached n) : Acc l.Child n := by
  induction hn with
  | root hroot => exact h _ hroot
  | child _ hchild ih => exact ih.inv hchild

open Classical in
/-- The same links, less those below which a way does not end. -/
noncomputable def toLinkTree : LinkTree ν α where
  root? := l.root?
  left? n := if Acc l.Child n then l.left? n else none
  right? n := if Acc l.Child n then l.right? n else none
  value := l.value
  furthest := l.furthest
  links_end := by
    refine ⟨fun n => ?_⟩
    by_cases hn : Acc l.Child n
    · induction hn with
      | intro n hbelow ih =>
        refine ⟨n, fun c hc => ih c (show l.left? n = some c ∨ l.right? n = some c from ?_)⟩
        simpa only [if_pos (Acc.intro n hbelow)] using hc
    · -- such a node has lost its links
      refine ⟨n, fun c hc => ?_⟩
      simp only [if_neg hn, or_self] at hc
      cases hc

variable {l} {n : ν}

theorem left?_toLinkTree (h : l.Unfolds) (hn : l.Reached n) : l.toLinkTree.left? n = l.left? n :=
  if_pos (hn.acc h)

theorem right?_toLinkTree (h : l.Unfolds) (hn : l.Reached n) : l.toLinkTree.right? n = l.right? n :=
  if_pos (hn.acc h)

end Links

namespace LinkTree

theorem mem_below_child {t : LinkTree ν α} {n c : ν} (hc : t.left? n = some c ∨ t.right? n = some c)
    (o : Option ν) : n ∈ (t.below o).preOrder → c ∈ (t.below o).preOrder := by
  induction o using t.below_induction with
  | none => exact fun hn => nomatch hn
  | some m ihl ihr =>
    have hself : c ∈ (t.below (some c)).preOrder := t.mem_subtree_self c
    rw [t.below_some, BinTree.preOrder]
    simp only [List.mem_cons, List.mem_append]
    rintro (rfl | hn | hn)
    · rcases hc with hc | hc
      · exact .inr (.inl (hc ▸ hself))
      · exact .inr (.inr (hc ▸ hself))
    · exact .inr (.inl (ihl hn))
    · exact .inr (.inr (ihr hn))

end LinkTree

/-- Links of which every way down from the root ends are those of a tree: it has the nodes that are
reached, with their links, and reads all nodes the same. -/
theorem Links.toLinkTree_spec {l : Links ν α} (h : l.Unfolds) :
    (∀ n, n ∈ l.toLinkTree.unfold.preOrder ↔ l.Reached n) ∧
    l.toLinkTree.root? = l.root? ∧
    (∀ n, l.Reached n → l.toLinkTree.left? n = l.left? n ∧ l.toLinkTree.right? n = l.right? n) ∧
    l.toLinkTree.value = l.value ∧ l.toLinkTree.furthest = l.furthest := by
  refine ⟨fun n => ⟨?_, fun hn => ?_⟩, rfl,
    fun n hn => ⟨left?_toLinkTree h hn, right?_toLinkTree h hn⟩, rfl, rfl⟩
  · -- only a node that is reached is known to keep its links, so that goes down with the walk
    have hbelow : ∀ o, (∀ m, o = some m → l.Reached m) →
        n ∈ (l.toLinkTree.below o).preOrder → l.Reached n := by
      intro o
      induction o using l.toLinkTree.below_induction with
      | none => exact fun _ hn => nomatch hn
      | some m ihl ihr =>
        intro hm
        have hreached := hm m rfl
        rw [l.toLinkTree.below_some, BinTree.preOrder]
        simp only [List.mem_cons, List.mem_append]
        rintro (rfl | hn | hn)
        · exact hreached
        · exact ihl (fun c hc => .child hreached (.inl (left?_toLinkTree h hreached ▸ hc))) hn
        · exact ihr (fun c hc => .child hreached (.inr (right?_toLinkTree h hreached ▸ hc))) hn
    exact hbelow l.root? fun m hm => .root hm
  · induction hn with
    | @root n hroot =>
      have hself := l.toLinkTree.mem_subtree_self n
      rw [LinkTree.unfold, show l.toLinkTree.root? = some n from hroot]
      exact hself
    | @child n c hn hchild ih =>
      refine LinkTree.mem_below_child ?_ _ ih
      rwa [left?_toLinkTree h hn, right?_toLinkTree h hn]

end IntervalIndex
