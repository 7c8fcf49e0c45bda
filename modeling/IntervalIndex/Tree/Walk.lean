import IntervalIndex.Scratch.Pool
import IntervalIndex.Tree.LinkTree

namespace IntervalIndex

open Scratch

/-- An in-order walk on its way: the nodes whose left side is being walked, and the node to enter
next. -/
structure Walk (ν : Type) where
  stack : Buffer ν
  pending : Option ν

namespace Walk

variable {ν α : Type}

def start (t : LinkTree ν α) (buffer : Buffer ν) : Walk ν := ⟨buffer, t.root?⟩

/-- Enters the pending node and goes left, or else leaves the node on top of the stack and goes
right. Only the second visits a node. -/
def step (t : LinkTree ν α) (w : Walk ν) : Option ν × Walk ν :=
  match w.pending with
  | some n => (none, ⟨w.stack.push n, t.left? n⟩)
  | none =>
    match w.stack.top? with
    | some n => (some n, ⟨w.stack.pop, t.right? n⟩)
    | none => (none, w)

def next (t : LinkTree ν α) (w : Walk ν) : Option ν × Walk ν :=
  match _h : w.pending with
  | some _ => next t (w.step t).2
  | none => w.step t
termination_by (t.below w.pending).size
decreasing_by
  simp only [_h, step, t.below_some, BinTree.size]
  omega

/-- The nodes still to come: those below the pending one, and then for each stacked node, from the
top, the node and those on its right. -/
def remaining (t : LinkTree ν α) (w : Walk ν) : List ν :=
  (t.below w.pending).inOrder ++
    w.stack.toStack.flatMap fun n => n :: (t.below (t.right? n)).inOrder

theorem remaining_start (t : LinkTree ν α) (buffer : Buffer ν) (h : buffer.toStack = []) :
    (start t buffer).remaining t = t.unfold.inOrder := by
  simp [remaining, start, h, LinkTree.unfold]

theorem remaining_step (t : LinkTree ν α) (w : Walk ν) :
    w.remaining t = (w.step t).1.toList ++ (w.step t).2.remaining t := by
  unfold step
  split
  · next n h => simp [remaining, h, t.below_some, BinTree.inOrder]
  · next h =>
    split
    · next n hn =>
      rw [Buffer.top?_eq_head?] at hn
      obtain ⟨rest, hrest⟩ := List.head?_eq_some_iff.mp hn
      simp [remaining, h, hrest, BinTree.inOrder]
    · simp

theorem step_visits (t : LinkTree ν α) (w : Walk ν) (h : w.pending = none) :
    (w.step t).1 = (w.remaining t).head? := by
  unfold step
  rw [h, Buffer.top?_eq_head?]
  cases hs : w.stack.toStack <;> simp [remaining, h, hs, BinTree.inOrder]

theorem next_visits (t : LinkTree ν α) (w : Walk ν) :
    (w.next t).1 = (w.remaining t).head? := by
  fun_induction next t w with
  | case1 w n h ih =>
    rw [ih, remaining_step t w]
    simp [step, h]
  | case2 w h => exact step_visits t w h

theorem remaining_next (t : LinkTree ν α) (w : Walk ν) :
    (w.next t).2.remaining t = (w.remaining t).tail := by
  fun_induction next t w with
  | case1 w n h ih =>
    rw [ih, remaining_step t w]
    simp [step, h]
  | case2 w h =>
    have hv := step_visits t w h
    have hr := remaining_step t w
    cases hs : (w.step t).1 with
    | some n => rw [hs] at hr; rw [hr]; rfl
    | none =>
      rw [hs] at hr hv
      have he : w.remaining t = [] := List.head?_eq_none_iff.mp hv.symm
      simp only [Option.toList_none, List.nil_append] at hr
      rw [← hr, he]; rfl

theorem length_remaining_next (t : LinkTree ν α) (w : Walk ν) {n : ν} {w' : Walk ν}
    (h : w.next t = (some n, w')) : (w'.remaining t).length < (w.remaining t).length := by
  have hv := next_visits t w
  have hr := remaining_next t w
  rw [h] at hv hr
  cases hl : w.remaining t with
  | nil => rw [hl] at hv; cases hv
  | cons a rest => rw [hl] at hr; simp [hr]

def nextValue (t : LinkTree ν α) (w : Walk ν) : Except Fault (Option α) × Walk ν :=
  match w.next t with
  | (none, w) => (.ok none, w)
  | (some n, w) => ((t.value n).map some, w)

def drain (t : LinkTree ν α) (w : Walk ν) (seen : Array ν) : Array ν × Walk ν :=
  match _h : w.next t with
  | (none, w') => (seen, w')
  | (some n, w') => drain t w' (seen.push n)
termination_by (w.remaining t).length
decreasing_by exact w.length_remaining_next t _h

end Walk

end IntervalIndex
