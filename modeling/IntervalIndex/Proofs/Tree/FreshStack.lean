import IntervalIndex.Proofs.Tree.Scanning

namespace IntervalIndex

open Scratch

variable {ν α σ : Type} {T : PosType}

namespace Search

/-- Two searches that stand at the same place, with storage of their own. -/
structure Alike (q q' : Search ν σ α) : Prop where
  candidates : q.candidates.toStack = q'.candidates.toStack
  state : q.state = q'.state
  phase : q.phase = q'.phase

variable {q q' : Search ν σ α}

theorem Alike.stack (h : q.Alike q') (keep : ν → Except Fault Bool) (child : Option ν)
    (following : SearchPhase ν α) :
    (q.stack keep child following).Alike (q'.stack keep child following) := by
  cases child with
  | none => exact ⟨h.candidates, h.state, rfl⟩
  | some c =>
    simp only [Search.stack]
    split
    · refine ⟨?_, h.state, rfl⟩
      rw [Buffer.toStack_push, Buffer.toStack_push, h.candidates]
    · exact ⟨h.candidates, h.state, rfl⟩
    · exact ⟨h.candidates, h.state, rfl⟩

theorem Alike.visit (h : q.Alike q') (t : LinkTree ν α) (test : Test σ α) :
    (q.visit t test).Alike (q'.visit t test) := by
  have hpop : q.candidates.pop.toStack = q'.candidates.pop.toStack := by
    rw [Buffer.toStack_pop, Buffer.toStack_pop, h.candidates]
  have htop : q.candidates.top? = q'.candidates.top? := by
    rw [Buffer.top?_eq_head?, Buffer.top?_eq_head?, h.candidates]
  simp only [Search.visit, htop, h.state]
  split
  · exact ⟨h.candidates, rfl, rfl⟩
  · split
    · exact ⟨hpop, rfl, rfl⟩
    · split <;> exact ⟨hpop, rfl, rfl⟩

theorem Alike.step (h : q.Alike q') (t : LinkTree ν α) (span : α → Span T) (query : Span T)
    (test : Test σ α) : (q.step t span query test).Alike (q'.step t span query test) := by
  simp only [Search.step, h.phase]
  split
  · exact h.visit t test
  · exact h.stack _ _ _
  · exact h.stack _ _ _
  · exact h

theorem run_of_done (t : LinkTree ν α) (span : α → Span T) (query : Span T) (test : Test σ α)
    {found : Except Fault Bool} (h : q.phase = .done found) :
    q.run t span query test = (⟨q.state, found.mapError .fault⟩, q.candidates) := by
  rw [Search.run]
  split
  · next found' h' =>
    obtain rfl : found = found' := SearchPhase.done.inj (h.symm.trans h')
    rfl
  all_goals next h' => cases h.symm.trans h'

theorem run_of_not_done (t : LinkTree ν α) (span : α → Span T) (query : Span T) (test : Test σ α)
    (h : ∀ found, q.phase ≠ .done found) :
    q.run t span query test = (q.step t span query test).run t span query test := by
  conv => lhs; rw [Search.run]
  split
  · next found h' => exact absurd h' (h found)
  all_goals rfl

theorem Alike.run (h : q.Alike q') (t : LinkTree ν α) (span : α → Span T) (query : Span T)
    (test : Test σ α) : (q.run t span query test).1 = (q'.run t span query test).1 := by
  fun_induction Search.run (T := T) t span query test q generalizing q' with
  | case1 q found hphase =>
    rw [run_of_done t span query test (h.phase ▸ hphase), h.state]
  | case2 q hphase ih | case3 q n v hphase ih | case4 q n hphase ih =>
    have hgoing : ∀ found, q'.phase ≠ .done found := by simp [← h.phase, hphase]
    rw [ih (h.step t span query test), ← run_of_not_done t span query test hgoing]

theorem Alike.start (root : ν) (s : σ) {b b' : Buffer ν} (h : b.toStack = b'.toStack) :
    (Search.start root s b : Search ν σ α).Alike (Search.start root s b') where
  candidates := by simp only [Search.start, Buffer.toStack_push, h]
  state := rfl
  phase := rfl

end Search

namespace LinkTree

variable (t : LinkTree ν α) (start length : Pos T) (test : Test σ α) (s : σ)
  {pool : Option (Pool ν)}

theorem collect_eq_alone (firstOnly : Bool) (out : Array α) (hpool : ∀ p ∈ pool, p.Clean) :
    (t.collect start length test firstOnly out s pool).1 =
      (t.collect start length test firstOnly out s none).1 := by
  rw [collect, collect]
  split
  · rfl
  · refine borrow_fst hpool fun b hb => ?_
    calc (t.scan test firstOnly (.start t b) out s 0).1
        = .ofNodes t test firstOnly t.unfold.inOrder out s 0 := by
          rw [scan_eq_ofNodes, Walk.remaining_start t b hb]
      _ = (t.scan test firstOnly (.start t .fresh) out s 0).1 := by
          rw [scan_eq_ofNodes, Walk.remaining_start t .fresh Buffer.toStack_fresh]

theorem any_eq_run (span : α → Span T) {query : Span T}
    (hquery : Span.ofLength start length = .ok query) {root : ν} (hroot : t.root? = some root)
    {b : Buffer ν} (hb : b.toStack = []) (hpool : ∀ p ∈ pool, p.Clean) :
    (t.any span start length test s pool).1 =
      ((Search.start root s b).run t span query test).1 := by
  rw [any, hquery]
  simp only [hroot]
  refine borrow_fst hpool fun b' hb' => ?_
  exact (Search.Alike.start root s (hb'.trans hb.symm)).run t span query test

theorem any_eq_alone (span : α → Span T) (hpool : ∀ p ∈ pool, p.Clean) :
    (t.any span start length test s pool).1 = (t.any span start length test s none).1 := by
  cases hquery : Span.ofLength start length with
  | error why => rw [any, any, hquery]
  | ok query =>
    cases hroot : t.root? with
    | none =>
      rw [any, any, hquery]
      simp only [hroot]
    | some root =>
      have hnone : ∀ p ∈ (none : Option (Pool ν)), p.Clean := by simp
      rw [t.any_eq_run start length test s span hquery hroot Buffer.toStack_fresh hpool,
        t.any_eq_run start length test s span hquery hroot Buffer.toStack_fresh hnone]

end LinkTree

end IntervalIndex
