import IntervalIndex.Tree.Collect

namespace IntervalIndex

open Scratch

inductive SearchPhase (ν α : Type) where
  /-- Ask the test about the candidate on top. -/
  | visit
  /-- Stack the right child of a node that did not pass, if it is worth a visit. -/
  | right (n : ν) (v : α)
  /-- The same with the left child, which is thus visited first. -/
  | left (n : ν)
  | done (found : Except Fault Bool)

structure Search (ν σ α : Type) where
  candidates : Buffer ν
  state : σ
  phase : SearchPhase ν α

structure Searched (T : PosType) (σ : Type) where
  state : σ
  found : Except (Stop T) Bool

namespace LinkTree

variable {ν α σ : Type} {T : PosType}

/-- Whether the subtree below a node may hold a value that ends at the query's start or later. -/
def reaches (t : LinkTree ν α) (span : α → Span T) (query : Span T) (n : ν) : Except Fault Bool :=
  return decide (query.start ≤ (← t.furthestEnd span n))

def keepsLeft (t : LinkTree ν α) (span : α → Span T) (query : Span T) (child : ν) :
    Except Fault Bool :=
  t.reaches span query child

/-- A right child must also not lie behind a parent that starts past the query. -/
def keepsRight (t : LinkTree ν α) (span : α → Span T) (query : Span T) (parent : α) (child : ν) :
    Except Fault Bool :=
  if (span parent).start ≤ query.stop then t.reaches span query child else .ok false

end LinkTree

namespace Search

variable {ν α σ : Type} {T : PosType}

def start (root : ν) (s : σ) (buffer : Buffer ν) : Search ν σ α := ⟨buffer.push root, s, .visit⟩

def stack (keep : ν → Except Fault Bool) (child : Option ν) (q : Search ν σ α)
    (following : SearchPhase ν α) : Search ν σ α :=
  match child with
  | none => { q with phase := following }
  | some c =>
    match keep c with
    | .ok true => { q with candidates := q.candidates.push c, phase := following }
    | .ok false => { q with phase := following }
    | .error f => { q with phase := .done (.error f) }

def visit (t : LinkTree ν α) (test : Test σ α) (q : Search ν σ α) : Search ν σ α :=
  match q.candidates.top? with
  | none => { q with phase := .done (.ok false) }
  | some n =>
    match t.value n with
    | .error f => ⟨q.candidates.pop, q.state, .done (.error f)⟩
    | .ok v =>
      match test q.state v with
      | (.error f, s) => ⟨q.candidates.pop, s, .done (.error f)⟩
      | (.ok true, s) => ⟨q.candidates.pop, s, .done (.ok true)⟩
      | (.ok false, s) => ⟨q.candidates.pop, s, .right n v⟩

def step (t : LinkTree ν α) (span : α → Span T) (query : Span T) (test : Test σ α)
    (q : Search ν σ α) : Search ν σ α :=
  match q.phase with
  | .visit => q.visit t test
  | .right n v => q.stack (t.keepsRight span query v) (t.right? n) (.left n)
  | .left n => q.stack (t.keepsLeft span query) (t.left? n) .visit
  | .done _ => q

def below (t : LinkTree ν α) (candidates : Buffer ν) : Nat :=
  candidates.toStack.foldr (fun n total => (t.subtree n).size + total) 0

/-- How many nodes lie below the children that are still to be stacked, and how far the phase has
come. -/
def ahead (t : LinkTree ν α) : SearchPhase ν α → Nat
  | .visit => 1
  | .right n _ => 3 * ((t.below (t.right? n)).size + (t.below (t.left? n)).size) + 3
  | .left n => 3 * (t.below (t.left? n)).size + 2
  | .done _ => 0

def work (t : LinkTree ν α) (q : Search ν σ α) : Nat := 3 * below t q.candidates + ahead t q.phase

theorem below_push (t : LinkTree ν α) (b : Buffer ν) (n : ν) :
    below t (b.push n) = (t.subtree n).size + below t b := by
  simp [below]

theorem below_pop (t : LinkTree ν α) (b : Buffer ν) {n : ν} (h : b.top? = some n) :
    below t b = (t.subtree n).size + below t b.pop := by
  rw [Buffer.top?_eq_head?] at h
  obtain ⟨rest, hrest⟩ := List.head?_eq_some_iff.mp h
  simp [below, hrest]

theorem work_stack (t : LinkTree ν α) (keep : ν → Except Fault Bool) (child : Option ν)
    (q : Search ν σ α) (following : SearchPhase ν α) :
    work t (q.stack keep child following) ≤
      3 * ((t.below child).size + below t q.candidates) + ahead t following := by
  cases child with
  | none => simp [stack, work, BinTree.size]
  | some c =>
    simp only [stack, LinkTree.below]
    split
    · simp [work, below_push]
    · simp only [work]; omega
    · simp only [work, ahead]; omega

theorem work_visit (t : LinkTree ν α) (test : Test σ α) (q : Search ν σ α) (h : q.phase = .visit) :
    work t (q.visit t test) < work t q := by
  unfold visit
  split
  · simp [work, h, ahead]
  · next n hn =>
    have hp := below_pop t q.candidates hn
    simp only [t.subtree_eq, BinTree.size] at hp
    split
    · simp only [work, h, ahead]; omega
    · split <;> simp only [work, h, ahead] <;> omega

theorem work_step (t : LinkTree ν α) (span : α → Span T) (query : Span T) (test : Test σ α)
    (q : Search ν σ α) (h : ∀ found, q.phase ≠ .done found) :
    work t (q.step t span query test) < work t q := by
  unfold step
  split
  · next hp => exact work_visit t test q hp
  · next n v hp =>
    have hs := work_stack t (t.keepsRight span query v) (t.right? n) q (.left n)
    simp only [work, hp, ahead] at hs ⊢
    omega
  · next n hp =>
    have hs := work_stack t (t.keepsLeft span query) (t.left? n) q .visit
    simp only [work, hp, ahead] at hs ⊢
    omega
  · next found hp => exact absurd hp (h found)

def run (t : LinkTree ν α) (span : α → Span T) (query : Span T) (test : Test σ α)
    (q : Search ν σ α) : Searched T σ × Buffer ν :=
  match _h : q.phase with
  | .done found => (⟨q.state, found.mapError .fault⟩, q.candidates)
  | .visit | .right _ _ | .left _ => run t span query test (q.step t span query test)
termination_by work t q
decreasing_by all_goals exact work_step t span query test q (by simp [_h])

end Search

/-- Whether the test accepts some value. Subtrees are left out that end before the query or start
past it, so the test should only accept values within these bounds. The buffer is borrowed after
the range is checked, and only for a tree with a root. -/
def LinkTree.any {ν α σ : Type} {T : PosType} (t : LinkTree ν α) (span : α → Span T)
    (start length : Pos T) (test : Test σ α) (s : σ) (pool : Option (Pool ν)) :
    Searched T σ × Option (Pool ν) :=
  match Span.ofLength start length with
  | .error why => (⟨s, .error (.rejected why)⟩, pool)
  | .ok query =>
    match t.root? with
    | none => (⟨s, .ok false⟩, pool)
    | some root =>
      LinkTree.borrow pool fun buffer => (Search.start root s buffer).run t span query test

end IntervalIndex
