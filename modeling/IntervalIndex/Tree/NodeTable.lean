import IntervalIndex.Checked
import IntervalIndex.Tree.LinkTree

namespace IntervalIndex

structure NodeEntry (α : Type) where
  value : α
  left? : Option Nat
  right? : Option Nat
  furthest : Nat
deriving Repr

structure NodeTable (α : Type) where
  nodes : Array (NodeEntry α)
  root? : Option Nat

namespace NodeTable

variable {α : Type}

/-- A node where a way down has led, and how many links may still follow. -/
abbrev Stage := Nat × Nat

def child? (t : NodeTable α) (link : NodeEntry α → Option Nat) : Stage → Option Stage
  | (_, 0) => none
  | (i, links + 1) => (t.nodes[i]?.bind link).map fun child => (child, links)

theorem links_lt {t : NodeTable α} {link : NodeEntry α → Option Nat} {stage child : Stage}
    (h : t.child? link stage = some child) : child.2 < stage.2 := by
  obtain ⟨i, links⟩ := stage
  cases links with
  | zero => cases h
  | succ links =>
    simp only [child?, Option.map_eq_some_iff] at h
    obtain ⟨_, _, rfl⟩ := h
    exact Nat.lt_succ_self links

/-- The tree that the links unfold to. A way down ends after as many links as there are nodes, which
none is longer than that comes to no node twice. Where links lead out of the table, reading the
node is a fault. -/
def toLinkTree (t : NodeTable α) : LinkTree Stage α where
  root? := t.root?.map fun root => (root, t.nodes.size)
  left? := t.child? (·.left?)
  right? := t.child? (·.right?)
  value stage := (Checked.get t.nodes stage.1).map (·.value)
  furthest stage := (Checked.get t.nodes stage.1).map fun n => (n.furthest, 0)
  links_end := by
    refine Subrelation.wf (fun {child stage} link => ?_) (measure (·.2)).wf
    rcases link with h | h <;> exact links_lt h

end NodeTable

end IntervalIndex
