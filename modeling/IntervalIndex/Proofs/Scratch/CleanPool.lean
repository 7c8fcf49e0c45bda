import IntervalIndex.Tree.Search

namespace IntervalIndex

namespace Scratch.Pool

variable {ν β : Type}

/-- All idle buffers are empty. A new pool is clean, and whatever is done with it keeps it so. -/
def Clean (p : Pool ν) : Prop := ∀ b ∈ p.idle, b.toStack = []

theorem clean_withLimits (limits : Limits) : (withLimits limits : Pool ν).Clean := by
  intro b hb
  cases hb

variable {p : Pool ν}

theorem Clean.acquire (h : p.Clean) : p.acquire.1.toStack = [] ∧ p.acquire.2.Clean := by
  obtain ⟨idle, limits⟩ := p
  cases idle with
  | nil => exact ⟨rfl, h⟩
  | cons b rest => exact ⟨h b (by simp), fun c hc => h c (List.mem_cons_of_mem b hc)⟩

theorem Clean.release (h : p.Clean) (b : Buffer ν) : (p.release b).Clean := by
  rw [Pool.release]
  split
  · intro c hc
    rcases List.mem_cons.mp hc with rfl | hc
    · exact Buffer.toStack_clear b
    · exact h c hc
  · exact h

theorem Clean.configure (h : p.Clean) (limits : Limits) : (p.configure limits).Clean :=
  fun b hb => h b (List.mem_filter.mp (List.mem_of_mem_drop hb)).1

theorem Clean.lend (h : p.Clean) (use : Buffer ν → β × Buffer ν) : (p.lend use).2.Clean :=
  h.acquire.2.release _

theorem Clean.of_mem_some (h : p.Clean) : ∀ q ∈ some p, q.Clean := by
  rintro q ⟨⟩
  exact h

theorem getD_clean {pool : Option (Pool ν)} {p : Pool ν} (hpool : ∀ q ∈ pool, q.Clean)
    (h : p.Clean) : (pool.getD p).Clean := by
  cases pool with
  | none => exact h
  | some q => exact hpool q rfl

end Scratch.Pool

open Scratch

variable {ν α β σ : Type} {T : PosType}

theorem LinkTree.borrow_fst {pool : Option (Pool ν)} (hpool : ∀ p ∈ pool, p.Clean)
    {use : Buffer ν → β × Buffer ν} {result : β}
    (huse : ∀ b : Buffer ν, b.toStack = [] → (use b).1 = result) :
    (borrow pool use).1 = result := by
  cases pool with
  | none => exact huse .fresh Buffer.toStack_fresh
  | some p => exact huse _ (hpool p rfl).acquire.1

theorem LinkTree.borrow_clean {pool : Option (Pool ν)} (hpool : ∀ p ∈ pool, p.Clean)
    (use : Buffer ν → β × Buffer ν) : ∀ p ∈ (borrow pool use).2, p.Clean := by
  cases pool with
  | none => simp [borrow]
  | some p =>
    rintro q hq
    obtain rfl : (p.lend use).2 = q := by simpa [borrow] using hq
    exact (hpool p rfl).lend use

theorem LinkTree.toList_clean (t : LinkTree ν α) {pool : Option (Pool ν)}
    (hpool : ∀ p ∈ pool, p.Clean) : ∀ p ∈ (t.toList pool).2, p.Clean :=
  LinkTree.borrow_clean hpool _

theorem LinkTree.collect_clean (t : LinkTree ν α) (start length : Pos T) (test : Test σ α)
    (firstOnly : Bool) (out : Array α) (s : σ) {pool : Option (Pool ν)}
    (hpool : ∀ p ∈ pool, p.Clean) :
    ∀ p ∈ (t.collect start length test firstOnly out s pool).2, p.Clean := by
  rw [LinkTree.collect]
  split
  · exact hpool
  · exact LinkTree.borrow_clean hpool _

theorem LinkTree.any_clean (t : LinkTree ν α) (span : α → Span T) (start length : Pos T)
    (test : Test σ α) (s : σ) {pool : Option (Pool ν)} (hpool : ∀ p ∈ pool, p.Clean) :
    ∀ p ∈ (t.any span start length test s pool).2, p.Clean := by
  rw [LinkTree.any]
  split
  · exact hpool
  · split
    · exact hpool
    · exact LinkTree.borrow_clean hpool _

end IntervalIndex
