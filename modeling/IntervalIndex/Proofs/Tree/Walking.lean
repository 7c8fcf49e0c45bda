import IntervalIndex.Proofs.Tree.Pruning
import Mathlib.Logic.Function.Iterate

namespace IntervalIndex

open Scratch

variable {ν α : Type}

namespace BinTree

def leftSpine : BinTree ν → List ν
  | leaf => []
  | node l n _ => n :: l.leftSpine

theorem length_leftSpine_le (b : BinTree ν) : b.leftSpine.length ≤ b.height := by
  induction b with
  | leaf => exact Nat.le_refl 0
  | node l n r ihl _ =>
    have hl := Nat.le_max_left l.height r.height
    simp only [leftSpine, height, List.length_cons]
    omega

end BinTree

namespace Walk

variable (t : LinkTree ν α) (w : Walk ν)

def stepped (steps : Nat) : Walk ν := (fun w => (w.step t).2)^[steps] w

def after (calls : Nat) : Walk ν := (fun w => (w.next t).2)^[calls] w

theorem stepped_succ (steps : Nat) : w.stepped t (steps + 1) = (w.step t).2.stepped t steps :=
  Function.iterate_succ_apply _ _ _

theorem after_succ (calls : Nat) : w.after t (calls + 1) = (w.next t).2.after t calls :=
  Function.iterate_succ_apply _ _ _

theorem stepped_spine {steps : Nat} (h : steps ≤ (t.below w.pending).leftSpine.length) :
    (w.stepped t steps).stack.toStack =
        ((t.below w.pending).leftSpine.take steps).reverse ++ w.stack.toStack ∧
      (w.stepped t steps).pending = (t.below w.pending).leftSpine[steps]? := by
  induction steps generalizing w with
  | zero =>
    refine ⟨rfl, ?_⟩
    change w.pending = _
    cases hp : w.pending with
    | none => rfl
    | some n => rw [t.below_some, BinTree.leftSpine, List.getElem?_cons_zero]
  | succ steps ih =>
    cases hp : w.pending with
    | none =>
      rw [hp] at h
      exact absurd h (Nat.not_succ_le_zero steps)
    | some n =>
      have hstep : (w.step t).2 = ⟨w.stack.push n, t.left? n⟩ := by rw [step, hp]
      rw [hp, t.below_some, BinTree.leftSpine, List.length_cons] at h
      obtain ⟨hstack, hpending⟩ := ih ⟨w.stack.push n, t.left? n⟩ (Nat.le_of_succ_le_succ h)
      rw [stepped_succ, hstep, t.below_some, BinTree.leftSpine]
      refine ⟨?_, hpending⟩
      rw [hstack, Buffer.toStack_push, List.take_succ_cons, List.reverse_cons, List.append_assoc]
      rfl

theorem next_eq_step :
    w.next t = (w.stepped t (t.below w.pending).leftSpine.length).step t := by
  fun_induction next t w with
  | case1 w n h ih =>
    have hstep : (w.step t).2 = ⟨w.stack.push n, t.left? n⟩ := by rw [step, h]
    rw [ih, h, t.below_some, BinTree.leftSpine, List.length_cons, stepped_succ, hstep]
  | case2 w h =>
    rw [h]
    rfl

/-- Every call ends. Until its last step it only goes down, no further than the tree is high below the
pending node. -/
theorem exists_steps : ∃ steps ≤ (t.below w.pending).height,
    (∀ i < steps, (w.stepped t i).pending ≠ none) ∧ (w.stepped t steps).pending = none ∧
      w.next t = (w.stepped t steps).step t := by
  refine ⟨_, BinTree.length_leftSpine_le _, fun i hi => ?_, ?_, w.next_eq_step t⟩
  · rw [(w.stepped_spine t (Nat.le_of_lt hi)).2, List.getElem?_eq_getElem hi]
    exact Option.some_ne_none _
  · rw [(w.stepped_spine t (Nat.le_refl _)).2, List.getElem?_eq_none (Nat.le_refl _)]

theorem remaining_after (calls : Nat) :
    (w.after t calls).remaining t = (w.remaining t).drop calls := by
  induction calls generalizing w with
  | zero => rfl
  | succ calls ih => rw [after_succ, ih, remaining_next, List.drop_tail]

theorem nextValue_fst : (w.nextValue t).1 = (w.remaining t).head?.mapM t.value := by
  rw [← next_visits, nextValue]
  rcases w.next t with ⟨_ | n, w'⟩ <;> rfl

theorem nextValue_after (calls : Nat) :
    ((w.after t calls).nextValue t).1 = (w.remaining t)[calls]?.mapM t.value := by
  rw [nextValue_fst, remaining_after, List.head?_drop]

variable {t w}

theorem nextValue_of_remaining_nil (h : w.remaining t = []) : w.nextValue t = (.ok none, w) := by
  obtain ⟨stack, pending⟩ := w
  rw [remaining, List.append_eq_nil_iff, List.flatMap_eq_nil_iff] at h
  obtain ⟨hpending, hstack⟩ := h
  cases pending with
  | some n => simp [t.below_some, BinTree.inOrder] at hpending
  | none =>
    have htop : stack.top? = none := by
      rw [Buffer.top?_eq_head?, List.head?_eq_none_iff, List.eq_nil_iff_forall_not_mem]
      exact fun n hn => List.cons_ne_nil _ _ (hstack n hn)
    simp [nextValue, next, step, htop]

end Walk

/-- A walk gives the values of its tree in order, one with each call, and after them none, for ever. At
any time those still to come are the values below the pending node, and then, for each stacked node
from the top, its own value and those on its right. Every call ends. -/
theorem Walk.nextValue_in_order (t : LinkTree ν α) {b : Buffer ν} (hb : b.toStack = [])
    (calls : Nat) :
    let w := (start t b).after t calls
    let toCome := (t.below w.pending).inOrder ++
      w.stack.toStack.flatMap fun n => n :: (t.below (t.right? n)).inOrder
    (w.nextValue t).1 = t.unfold.inOrder[calls]?.mapM t.value ∧
    toCome = t.unfold.inOrder.drop calls ∧
    (∀ more, ((w.after t more).nextValue t).1 = toCome[more]?.mapM t.value) ∧
    (t.unfold.size ≤ calls → w.nextValue t = (.ok none, w)) ∧
    ∃ steps ≤ (t.below w.pending).height, (∀ i < steps, (w.stepped t i).pending ≠ none) ∧
      (w.stepped t steps).pending = none ∧ w.next t = (w.stepped t steps).step t := by
  intro w toCome
  have hremaining : w.remaining t = t.unfold.inOrder.drop calls := by
    rw [remaining_after, remaining_start t b hb]
  refine ⟨?_, hremaining, w.nextValue_after t, fun hcalls => ?_, w.exists_steps t⟩
  · rw [nextValue_fst, hremaining, List.head?_drop]
  · apply nextValue_of_remaining_nil
    rw [hremaining, List.drop_eq_nil_iff, BinTree.length_inOrder]
    exact hcalls

/-- After two of the three spans the middle node is on the stack, and a fifth call gives nothing again. -/
theorem Walk.nextValue_in_order_lopsided :
    let t := LinkTree.lopsided.toLinkTree
    let w calls := (start t .fresh).after t calls
    ((w 1).nextValue t).1 = .ok (some (.clamp 2 3)) ∧
      (t.below (w 2).pending).inOrder ++
        (w 2).stack.toStack.flatMap (fun n => n :: (t.below (t.right? n)).inOrder) = [(1, 2)] ∧
      ((w 2).nextValue t).1 = .ok (some (.clamp 4 7)) ∧ (w 4).nextValue t = (.ok none, w 4) := by
  intro t w
  have hnodes : t.unfold.inOrder = [(0, 3), (2, 1), (1, 2)] := LinkTree.lopsided_inOrder
  have hsize : t.unfold.size = 3 := by rw [← BinTree.length_inOrder, hnodes]; rfl
  obtain ⟨hsecond, -⟩ := nextValue_in_order t (b := .fresh) Buffer.toStack_fresh 1
  obtain ⟨hthird, htoCome, -⟩ := nextValue_in_order t (b := .fresh) Buffer.toStack_fresh 2
  obtain ⟨-, -, -, hended, -⟩ := nextValue_in_order t (b := .fresh) Buffer.toStack_fresh 4
  rw [hnodes] at hsecond hthird htoCome
  exact ⟨hsecond, htoCome, hthird, hended (by omega)⟩

end IntervalIndex
