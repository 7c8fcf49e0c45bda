import IntervalIndex.Session

namespace IntervalIndex

open Scratch

variable {ν α σ : Type} {T : PosType}

theorem Scratch.Buffer.capacity_push_le {b : Buffer ν} {height most : Nat}
    (hmost : max 4 (2 * height) ≤ most) (hcapacity : b.capacity ≤ most)
    (hroom : b.toStack.length < height) (x : ν) : (b.push x).capacity ≤ most := by
  rw [← Buffer.size_eq_length, Buffer.size] at hroom
  simp only [Buffer.push]
  have hfits := b.fits
  split <;> omega

namespace LinkTree

theorem height_left_lt (t : LinkTree ν α) (n : ν) : (t.below (t.left? n)).height < (t.subtree n).height := by
  rw [subtree_eq, BinTree.height]
  exact Nat.lt_succ_of_le (Nat.le_max_left _ _)

theorem height_right_lt (t : LinkTree ν α) (n : ν) : (t.below (t.right? n)).height < (t.subtree n).height := by
  rw [subtree_eq, BinTree.height]
  exact Nat.lt_succ_of_le (Nat.le_max_right _ _)

/-- The nodes of a stack are so deep down that whatever is stacked from below one of them still fits
into the height. -/
def Fits (t : LinkTree ν α) (height : Nat) : List ν → Prop
  | [] => True
  | n :: rest => (t.subtree n).height + rest.length ≤ height ∧ Fits t height rest

/-- A buffer with such a stack, and with no more storage than some limit. -/
structure Roomy (t : LinkTree ν α) (height most : Nat) (b : Buffer ν) : Prop where
  fits : t.Fits height b.toStack
  capacity_le : b.capacity ≤ most

variable {t : LinkTree ν α} {height most : Nat} {b : Buffer ν}

theorem roomy_of_nil (hb : b.toStack = []) (hcapacity : b.capacity ≤ most) :
    t.Roomy height most b where
  fits := by rw [hb]; trivial
  capacity_le := hcapacity

theorem Roomy.push (hmost : max 4 (2 * height) ≤ most) (h : t.Roomy height most b) {n : ν}
    (hn : (t.subtree n).height + b.toStack.length ≤ height) : t.Roomy height most (b.push n) where
  fits := by
    rw [Buffer.toStack_push]
    exact ⟨hn, h.fits⟩
  capacity_le := by
    have hpos := t.height_left_lt n
    exact Buffer.capacity_push_le hmost h.capacity_le (by omega) n

theorem Roomy.pop (h : t.Roomy height most b) : t.Roomy height most b.pop where
  fits := by
    have hfits := h.fits
    rw [Buffer.toStack_pop]
    cases hb : b.toStack with
    | nil => trivial
    | cons n rest =>
      rw [hb] at hfits
      exact hfits.2
  capacity_le := h.capacity_le

theorem Roomy.top (h : t.Roomy height most b) {n : ν} (hn : b.top? = some n) :
    (t.subtree n).height + b.pop.toStack.length ≤ height := by
  have hfits := h.fits
  rw [Buffer.top?_eq_head?] at hn
  obtain ⟨rest, hrest⟩ := List.head?_eq_some_iff.mp hn
  rw [Buffer.toStack_pop, hrest, List.tail_cons]
  rw [hrest] at hfits
  exact hfits.1

end LinkTree

namespace Walk

/-- A walk whose pending subtree fits on top of its stack. -/
structure Fits (t : LinkTree ν α) (height most : Nat) (w : Walk ν) : Prop where
  stack : t.Roomy height most w.stack
  pending : (t.below w.pending).height + w.stack.toStack.length ≤ height

variable {t : LinkTree ν α} {height most : Nat} {w : Walk ν}

theorem fits_start (ht : t.unfold.height ≤ height) {b : Buffer ν} (hb : b.toStack = [])
    (hcapacity : b.capacity ≤ most) : (start t b).Fits t height most where
  stack := LinkTree.roomy_of_nil hb hcapacity
  pending := by
    change t.unfold.height + b.toStack.length ≤ height
    rwa [hb]

theorem Fits.step (hmost : max 4 (2 * height) ≤ most) (h : w.Fits t height most) :
    (w.step t).2.Fits t height most := by
  obtain ⟨hstack, hpending⟩ := h
  rw [Walk.step]
  split
  · next n hn =>
    rw [hn] at hpending
    refine ⟨hstack.push hmost hpending, ?_⟩
    have hlt := t.height_left_lt n
    change (t.subtree n).height + w.stack.toStack.length ≤ height at hpending
    change (t.below (t.left? n)).height + (w.stack.push n).toStack.length ≤ height
    rw [Buffer.toStack_push, List.length_cons]
    omega
  · split
    · next n hn =>
      refine ⟨hstack.pop, ?_⟩
      have hlt := t.height_right_lt n
      have htop := hstack.top hn
      change (t.below (t.right? n)).height + w.stack.pop.toStack.length ≤ height
      omega
    · exact ⟨hstack, hpending⟩

theorem Fits.next (hmost : max 4 (2 * height) ≤ most) (h : w.Fits t height most) :
    (w.next t).2.Fits t height most := by
  fun_induction Walk.next t w with
  | case1 w n hn ih => exact ih (h.step hmost)
  | case2 w hn => exact h.step hmost

theorem Fits.of_next (hmost : max 4 (2 * height) ≤ most) (h : w.Fits t height most)
    {visited : Option ν} {w' : Walk ν} (hnext : w.next t = (visited, w')) :
    w'.Fits t height most := by
  have hfits := h.next hmost
  rwa [hnext] at hfits

theorem Fits.drain (hmost : max 4 (2 * height) ≤ most) (h : w.Fits t height most)
    (seen : Array ν) : (w.drain t seen).2.Fits t height most := by
  fun_induction Walk.drain t w seen with
  | case1 w seen w' hnext => exact h.of_next hmost hnext
  | case2 w seen n w' hnext ih => exact ih (h.of_next hmost hnext)

theorem Fits.visit (hmost : max 4 (2 * height) ≤ most) (h : w.Fits t height most)
    (visits : Nat) : (Session.visit t visits w).2.Fits t height most := by
  induction visits generalizing w with
  | zero => exact h
  | succ visits ih =>
    rw [Session.visit, nextValue]
    rcases hnext : w.next t with ⟨visited, w'⟩
    have hfits := h.of_next hmost hnext
    cases visited with
    | none => exact ih hfits
    | some n =>
      simp only
      cases t.value n with
      | error f => exact hfits
      | ok v => exact ih hfits

theorem Fits.scan (hmost : max 4 (2 * height) ≤ most) (h : w.Fits t height most)
    (test : Test σ α) (firstOnly : Bool) (out : Array α) (s : σ) (count : Nat) :
    (t.scan (T := T) test firstOnly w out s count).2.capacity ≤ most := by
  fun_induction LinkTree.scan (T := T) t test firstOnly w out s count with
  | case1 w out s count w' hnext | case2 w out s count n w' hnext f hf
  | case3 w out s count n w' hnext v hv f s' hs | case5 w out s count n w' hnext v hv s' hs hfirst =>
    exact (h.of_next hmost hnext).stack.capacity_le
  | case4 w out s count n w' hnext v hv s' hs ih
  | case6 w out s count n w' hnext v hv s' hs hfirst ih =>
    exact ih (h.of_next hmost hnext)

end Walk

namespace Search

structure Fits (t : LinkTree ν α) (height most : Nat) (q : Search ν σ α) : Prop where
  candidates : t.Roomy height most q.candidates
  phase : match q.phase with
    | .right n _ => (t.subtree n).height + q.candidates.toStack.length ≤ height
    | .left n => (t.below (t.left? n)).height + q.candidates.toStack.length ≤ height
    | .visit | .done _ => True

variable {t : LinkTree ν α} {height most : Nat} {q : Search ν σ α}

/-- Stacking a child that has room adds at most one candidate, and the search goes on unless the tree
cannot be read. -/
theorem stack_roomy (hmost : max 4 (2 * height) ≤ most) (h : t.Roomy height most q.candidates)
    (keep : ν → Except Fault Bool) {child : Option ν}
    (hchild : (t.below child).height + q.candidates.toStack.length ≤ height)
    (following : SearchPhase ν α) :
    ∃ candidates phase, q.stack keep child following = ⟨candidates, q.state, phase⟩ ∧
      t.Roomy height most candidates ∧
      candidates.toStack.length ≤ q.candidates.toStack.length + 1 ∧
      (phase = following ∨ ∃ f, phase = .done (.error f)) := by
  have hsame : q.candidates.toStack.length ≤ q.candidates.toStack.length + 1 := Nat.le_succ _
  cases child with
  | none => exact ⟨_, _, rfl, h, hsame, .inl rfl⟩
  | some c =>
    rw [stack]
    split
    · refine ⟨_, _, rfl, h.push hmost hchild, ?_, .inl rfl⟩
      exact Nat.le_of_eq (congrArg List.length (Buffer.toStack_push _ c))
    · exact ⟨_, _, rfl, h, hsame, .inl rfl⟩
    · next f _ => exact ⟨_, _, rfl, h, hsame, .inr ⟨f, rfl⟩⟩

theorem Fits.visit (h : q.Fits t height most) (test : Test σ α) :
    (q.visit t test).Fits t height most := by
  have hpop := h.candidates.pop
  rw [Search.visit]
  split
  · exact ⟨h.candidates, trivial⟩
  · next n hn =>
    split
    · exact ⟨hpop, trivial⟩
    · split
      · exact ⟨hpop, trivial⟩
      · exact ⟨hpop, trivial⟩
      · exact ⟨hpop, h.candidates.top hn⟩

theorem Fits.step (hmost : max 4 (2 * height) ≤ most) (h : q.Fits t height most)
    (span : α → Span T) (query : Span T) (test : Test σ α) :
    (q.step t span query test).Fits t height most := by
  obtain ⟨hcandidates, hphase⟩ := h
  rw [Search.step]
  split
  · exact Fits.visit ⟨hcandidates, by simp only [*]⟩ test
  · next n v hright =>
    rw [hright] at hphase
    have hlt := t.height_right_lt n
    have hroom : (t.below (t.right? n)).height + q.candidates.toStack.length ≤ height := by omega
    obtain ⟨candidates, phase, hs, hroomy, hlength, rfl | ⟨f, rfl⟩⟩ := stack_roomy hmost hcandidates
      (t.keepsRight span query v) hroom (.left n)
    · -- a right child may lie below the left one now, whose subtree is lower than that of their parent
      have hleft := t.height_left_lt n
      rw [hs]
      exact ⟨hroomy, by simp only; omega⟩
    · rw [hs]
      exact ⟨hroomy, trivial⟩
  · next n hleft =>
    rw [hleft] at hphase
    obtain ⟨candidates, phase, hs, hroomy, -, rfl | ⟨f, rfl⟩⟩ := stack_roomy hmost hcandidates
      (t.keepsLeft span query) hphase .visit
    all_goals
      rw [hs]
      exact ⟨hroomy, trivial⟩
  · exact ⟨hcandidates, hphase⟩

theorem Fits.run (hmost : max 4 (2 * height) ≤ most) (h : q.Fits t height most)
    (span : α → Span T) (query : Span T) (test : Test σ α) :
    (q.run t span query test).2.capacity ≤ most := by
  fun_induction Search.run (T := T) t span query test q with
  | case1 q found hphase => exact h.candidates.capacity_le
  | case2 q hphase ih | case3 q n v hphase ih | case4 q n hphase ih =>
    exact ih (h.step hmost span query test)

theorem fits_start (hmost : max 4 (2 * height) ≤ most) {root : ν}
    (hroot : (t.subtree root).height ≤ height) (s : σ) {b : Buffer ν} (hb : b.toStack = [])
    (hcapacity : b.capacity ≤ most) : (start root s b : Search ν σ α).Fits t height most where
  candidates := by
    have hempty : t.Roomy height most b := LinkTree.roomy_of_nil hb hcapacity
    exact hempty.push hmost (by rwa [hb])
  phase := trivial

end Search

end IntervalIndex
