import IntervalIndex.Packed.Arrange
import IntervalIndex.Packed.Furthest
import IntervalIndex.Tree.LinkTree

namespace IntervalIndex

open Packed

/-- Values in the slots of a complete binary tree, in order of their start from left to right. It is
built once and then only asked. -/
structure PackedTree (T : PosType) (α : Type) where
  span : α → Span T
  nodes : Array (Node α)

namespace PackedTree

variable {T : PosType} {α : Type}

def empty (span : α → Span T) : PackedTree T α := ⟨span, #[]⟩

def size (t : PackedTree T α) : Nat := t.nodes.size

def isEmpty (t : PackedTree T α) : Bool := t.size == 0

def depth (t : PackedTree T α) : Nat := if t.size = 0 then 0 else t.size.log2 + 1

def child? (t : PackedTree T α) (slot : Nat) : Option Nat :=
  if slot < t.size then some slot else none

def toLinkTree (t : PackedTree T α) : LinkTree Nat α where
  root? := t.child? 0
  left? slot := t.child? (leftSlot slot)
  right? slot := t.child? (rightSlot slot)
  value slot := (Checked.get t.nodes slot).map (·.value)
  furthest slot := (Checked.get t.nodes slot).map (·.furthest)
  links_end := by
    refine Subrelation.wf (fun {child slot} link => ?_) (measure (t.size - ·)).wf
    change t.size - child < t.size - slot
    simp only [child?, leftSlot, rightSlot] at link
    grind

def furthestEnd (t : PackedTree T α) (slot : Nat) : Except Fault (Pos T) :=
  t.toLinkTree.furthestEnd t.span slot

def greatestEnd (t : PackedTree T α) : Except Fault (Option (Pos T)) :=
  match t.toLinkTree.root? with
  | none => .ok none
  | some root => (t.furthestEnd root).map some

def firstInverted (span : α → Span T) : List α → Except (SpanError T) Unit
  | [] => .ok ()
  | v :: vs =>
    match Span.ofBounds (span v).start (span v).stop with
    | .error why => .error why
    | .ok _ => firstInverted span vs

def startsBefore (span : α → Span T) (v w : α) : Bool := decide ((span v).start ≤ (span w).start)

def isSorted (span : α → Span T) : List α → Bool
  | v :: w :: vs => startsBefore span v w && isSorted span (w :: vs)
  | _ => true

def pack (span : α → Span T) (values : List α) : Except Fault (Array (Node α)) := do
  let slots ← targetSlots values.length
  markFurthest span (← arrange values.toArray slots).values

def ofSorted (span : α → Span T) (values : List α) : Except (Stop T) (PackedTree T α) :=
  match firstInverted span values with
  | .error why => .error (.rejected why)
  | .ok () =>
    if isSorted span values then
      match pack span values with
      | .ok nodes => .ok ⟨span, nodes⟩
      | .error f => .error (.fault f)
    else .error (.fault .unsortedValues)

theorem pairwise_mergeSort (span : α → Span T) (values : List α) :
    (values.mergeSort (startsBefore span)).Pairwise fun v w =>
      (span v).start ≤ (span w).start := by
  have h := @List.pairwise_mergeSort α (startsBefore span) ?_ ?_ values
  · simpa only [startsBefore, decide_eq_true_eq] using h
  · intro u v w huv hvw
    simp only [startsBefore, decide_eq_true_eq] at *
    exact Int.le_trans huv hvw
  · intro v w
    simp only [startsBefore, Bool.or_eq_true, decide_eq_true_eq]
    exact Int.le_total _ _

end PackedTree

/-- A way to bring values into the order of their starts. Which of two that start together comes
first is left to it. -/
structure StartSort {T : PosType} {α : Type} (span : α → Span T) where
  sort : List α → List α
  perm : ∀ values, (sort values).Perm values
  pairwise : ∀ values, (sort values).Pairwise fun v w => (span v).start ≤ (span w).start

namespace PackedTree

variable {T : PosType} {α : Type}

def mergeByStart (span : α → Span T) : StartSort span where
  sort values := values.mergeSort (startsBefore span)
  perm values := List.mergeSort_perm values _
  pairwise := pairwise_mergeSort span

def ofListBy {span : α → Span T} (order : StartSort span) (values : List α) :
    Except (Stop T) (PackedTree T α) :=
  ofSorted span (order.sort values)

def ofList (span : α → Span T) : List α → Except (Stop T) (PackedTree T α) :=
  ofListBy (mergeByStart span)

end PackedTree

end IntervalIndex
