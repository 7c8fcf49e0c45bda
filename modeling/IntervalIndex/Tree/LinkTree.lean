import IntervalIndex.Span
import IntervalIndex.Tree.BinTree

namespace IntervalIndex

/-- A binary tree given by links, each of which leads strictly downwards. Every node names one that
is taken to hold the greatest end below it. Reading a node that does not exist is a fault. -/
structure LinkTree (ν α : Type) where
  root? : Option ν
  left? : ν → Option ν
  right? : ν → Option ν
  value : ν → Except Fault α
  furthest : ν → Except Fault ν
  links_end : WellFounded fun child node => left? node = some child ∨ right? node = some child

namespace LinkTree

variable {ν α : Type} {T : PosType}

def subtree (t : LinkTree ν α) (n : ν) : BinTree ν :=
  .node
    (match _h : t.left? n with
      | none => .leaf
      | some c => t.subtree c)
    n
    (match _h : t.right? n with
      | none => .leaf
      | some c => t.subtree c)
termination_by t.links_end.wrap n
decreasing_by
  · exact .inl _h
  · exact .inr _h

def below (t : LinkTree ν α) : Option ν → BinTree ν
  | none => .leaf
  | some n => t.subtree n

def unfold (t : LinkTree ν α) : BinTree ν := t.below t.root?

theorem subtree_eq (t : LinkTree ν α) (n : ν) :
    t.subtree n = .node (t.below (t.left? n)) n (t.below (t.right? n)) := by
  rw [subtree]
  congr 1
  · split <;> simp [below, *]
  · split <;> simp [below, *]

@[simp] theorem below_none (t : LinkTree ν α) : t.below none = .leaf := rfl

theorem below_some (t : LinkTree ν α) (n : ν) :
    t.below (some n) = .node (t.below (t.left? n)) n (t.below (t.right? n)) :=
  t.subtree_eq n

def furthestEnd (t : LinkTree ν α) (span : α → Span T) (n : ν) : Except Fault (Pos T) := do
  return (span (← t.value (← t.furthest n))).stop

end LinkTree

/-- A predicate asked about one value after another. Its answers may depend on what it has seen, and
it may stop with a fault. -/
abbrev Test (σ α : Type) := σ → α → Except Fault Bool × σ

def Test.ofPure {α : Type} (p : α → Bool) : Test Unit α := fun s v => (.ok (p v), s)

def Test.recording {σ α : Type} (test : Test σ α) : Test (σ × List α) α :=
  fun (s, seen) v =>
    let (answer, s) := test s v
    (answer, s, v :: seen)

inductive Stop (T : PosType) where
  | rejected (why : SpanError T)
  | fault (why : Fault)
deriving DecidableEq, Repr

end IntervalIndex
