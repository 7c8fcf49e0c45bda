import IntervalIndex.Packed.Query
import IntervalIndex.Proofs.Packed.WaysDown
import IntervalIndex.Proofs.Scratch.ReachablePool
import IntervalIndex.Proofs.Session.Walks
import IntervalIndex.Proofs.Tree.StackRoom

namespace IntervalIndex

open Scratch

variable {ν α σ : Type}

/-- The whole life of a walk: opened, advanced again and again, each time for some visits, and
closed. -/
def Request.wholeWalk (name : String) (tree : LinkTree ν α) (visits : List Nat) :
    List (Request ν σ α) :=
  .openWalk name tree :: (visits.map (.advance name) ++ [.closeWalk name])

namespace Session

variable {t : LinkTree ν α} {height most : Nat}

theorem run_advances (hmost : max 4 (2 * height) ≤ most) {s : Session ν α} {name : String}
    {w : Walk ν} (hs : s.walk? name = some ⟨t, w⟩) (hw : w.Fits t height most)
    (visits : List Nat) :
    let after := (s.run (visits.map (.advance name) : List (Request ν σ α))).2
    after.pool = s.pool ∧ ∃ w', after.walk? name = some ⟨t, w'⟩ ∧ w'.Fits t height most := by
  induction visits generalizing s w with
  | nil => exact ⟨rfl, w, hs, hw⟩
  | cons k visits ih =>
    have hadvanced : (s.advance name k).2.walk? name = some ⟨t, (visit t k w).2⟩ := by
      rw [walk?_advance, hs, Option.map_some, if_pos rfl]
    obtain ⟨hpool, hwalk⟩ := ih hadvanced (hw.visit hmost k)
    exact ⟨hpool.trans (s.advance_pool name k), hwalk⟩

theorem pool_close {s : Session ν α} {name : String} {w : OpenWalk ν α}
    (hw : s.walk? name = some w) : (s.close name).pool = s.pool.release w.walk.stack := by
  simp only [close, hw]

theorem pool_openWalk {s : Session ν α} {name : String} (hname : s.walk? name = none)
    (tree : LinkTree ν α) : (s.openWalk name tree).pool = s.pool.acquire.2 := by
  have hclose : close ⟨s.pool.acquire.2, s.walks⟩ name = ⟨s.pool.acquire.2, s.walks⟩ := by
    simp only [walk?] at hname
    simp only [close, walk?, hname]
  simp only [openWalk, hclose]

theorem retained_wholeWalk {s : Session ν α} (hpool : s.pool.Bounded) {name : String}
    (hname : s.walk? name = none)
    (hlimit : max 4 (2 * t.unfold.height) ≤ s.pool.limits.maxCapacity) (visits : List Nat) :
    (s.run (Request.wholeWalk (σ := σ) name t visits)).2.pool.retained =
      max s.pool.retained (min 1 s.pool.limits.maxBuffers) := by
  have hfits : (Walk.start t s.pool.acquire.1).Fits t t.unfold.height
      s.pool.limits.maxCapacity :=
    Walk.fits_start (Nat.le_refl _) hpool.clean.acquire.1 hpool.acquire_capacity
  obtain ⟨hsame, w, hw, hroom⟩ := run_advances (σ := σ) hlimit (s.walk?_openWalk name t) hfits visits
  rw [pool_openWalk hname] at hsame
  -- the pool is touched at both ends of the walk only, so the buffer comes back to where it was taken
  calc (s.run (Request.wholeWalk (σ := σ) name t visits)).2.pool.retained
      = (((s.openWalk name t).run
          (visits.map (.advance name) : List (Request ν σ α))).2.close name).pool.retained := by
        simp only [Request.wholeWalk, run, step, run_append]
    _ = (s.pool.acquire.2.release w.stack).retained := by rw [pool_close hw, hsame]
    _ = max s.pool.retained (min 1 s.pool.limits.maxBuffers) :=
        hpool.retained_release_acquire hroom.stack.capacity_le

end Session

namespace PackedTree

variable {T : PosType} {start length : Pos T} {p : Pool Nat}

theorem collect_retained (t : PackedTree T α) (hp : p.Bounded)
    (hlimit : max 4 (2 * t.depth) ≤ p.limits.maxCapacity) {query : Span T}
    (hquery : Span.ofLength start length = .ok query) (test : Test σ α) (firstOnly : Bool)
    (out : Array α) (s : σ) : (t.collect start length test firstOnly out s p).2.retained =
      max p.retained (min 1 p.limits.maxBuffers) := by
  simp only [collect, LinkTree.collect, hquery]
  refine LinkTree.retained_borrow hp fun b hb hcapacity => ?_
  have hfits := Walk.fits_start t.height_unfold_le hb hcapacity
  exact hfits.scan hlimit test firstOnly out s 0

theorem any_retained (t : PackedTree T α) (hp : p.Bounded)
    (hlimit : max 4 (2 * t.depth) ≤ p.limits.maxCapacity) {query : Span T}
    (hquery : Span.ofLength start length = .ok query) (ht : t.isEmpty = false) (test : Test σ α)
    (s : σ) : (t.any start length test s p).2.retained =
      max p.retained (min 1 p.limits.maxBuffers) := by
  have hsize : 0 < t.size := Nat.pos_of_ne_zero (beq_eq_false_iff_ne.mp ht)
  have hroot : t.toLinkTree.root? = some 0 := if_pos hsize
  have hheight := t.height_unfold_le
  rw [LinkTree.unfold, hroot] at hheight
  simp only [any, LinkTree.any, hquery, hroot]
  refine LinkTree.retained_borrow hp fun b hb hcapacity => ?_
  have hfits := Search.fits_start (σ := σ) hlimit hheight s hb hcapacity
  exact hfits.run hlimit t.span query test

theorem toList_retained (t : PackedTree T α) (hp : p.Bounded)
    (hlimit : max 4 (2 * t.depth) ≤ p.limits.maxCapacity) :
    (t.toList p).2.retained = max p.retained (min 1 p.limits.maxBuffers) := by
  simp only [toList, LinkTree.toList]
  refine LinkTree.retained_borrow hp fun b hb hcapacity => ?_
  have hfits := Walk.fits_start t.height_unfold_le hb hcapacity
  exact (hfits.drain hlimit #[]).stack.capacity_le

/-- A use of a tree leaves as many buffers idle as there were, and one if there was none and the pool
keeps any: a scan or a search that ends in any way, a test that stops with a fault among them, and a
walk that is advanced any number of times. A range that is rejected leaves the pool alone, and so does
a search of an empty tree. -/
theorem retained_after_use (t : PackedTree T α) (hp : p.Reachable)
    (hlimit : max 4 (2 * t.depth) ≤ p.limits.maxCapacity) (start length : Pos T)
    (test : Test σ α) (s : σ) :
    let left := max p.retained (min 1 p.limits.maxBuffers)
    (∀ why, Span.ofLength start length = .error why →
      (∀ firstOnly out, (t.collect start length test firstOnly out s p).2 = p) ∧
      (t.any start length test s p).2 = p) ∧
    (∀ query, Span.ofLength start length = .ok query →
      (∀ firstOnly out, (t.collect start length test firstOnly out s p).2.retained = left) ∧
      (t.isEmpty = false → (t.any start length test s p).2.retained = left) ∧
      (t.isEmpty = true → (t.any start length test s p).2 = p)) ∧
    (t.toList p).2.retained = left ∧
    ∀ (walks : List (String × OpenWalk Nat α)) (name : String) (visits : List Nat),
      Session.walk? ⟨p, walks⟩ name = none →
      (Session.run ⟨p, walks⟩
        (Request.wholeWalk (σ := σ) name t.toLinkTree visits)).2.pool.retained = left := by
  intro left
  have hbounded := hp.bounded
  refine ⟨fun why hwhy => ⟨fun firstOnly out => ?_, ?_⟩,
    fun query hquery => ⟨?_, ?_, fun hempty => ?_⟩, ?_, ?_⟩
  · simp only [collect, LinkTree.collect, hwhy, Option.getD_some]
  · simp only [any, LinkTree.any, hwhy, Option.getD_some]
  · exact fun firstOnly out => t.collect_retained hbounded hlimit hquery test firstOnly out s
  · exact fun ht => t.any_retained hbounded hlimit hquery ht test s
  · have hroot : t.toLinkTree.root? = none := by
      apply if_neg
      rw [beq_iff_eq.mp hempty]
      exact Nat.lt_irrefl 0
    simp only [any, LinkTree.any, hquery, hroot, Option.getD_some]
  · exact t.toList_retained hbounded hlimit
  · intro walks name visits hname
    have hheight := t.height_unfold_le
    have hlimit' : max 4 (2 * t.toLinkTree.unfold.height) ≤ p.limits.maxCapacity := by omega
    exact Session.retained_wholeWalk (s := ⟨p, walks⟩) hbounded hname hlimit' visits

def threeSlots : PackedTree .i64 (Span .i64) where
  span := id
  nodes := #[⟨.clamp 4 6, 2⟩, ⟨.clamp 1 3, 1⟩, ⟨.clamp 5 9, 2⟩]

def lentOut : Pool Nat := ((Pool.withLimits ⟨1, 4⟩).release .fresh).acquire.2

theorem retained_after_use_faulty :
    let test : Test Unit (Span .i64) := fun s _ => (.error .lengthOverflow, s)
    lentOut.retained = 0 ∧
    (threeSlots.collect (.clamp 2) (.clamp 3) test false #[] () lentOut).2.retained = 1 ∧
    (threeSlots.any (.clamp 2) (.clamp 3) test () lentOut).2.retained = 1 ∧
    (Session.run ⟨lentOut, []⟩ (Request.wholeWalk (σ := Unit) "all" threeSlots.toLinkTree
      [1, 5])).2.pool.retained = 1 := by
  intro test
  have hp : lentOut.Reachable := (Pool.Reachable.start ⟨1, 4⟩).release .fresh |>.acquire
  have hquery : Span.ofLength (.clamp 2) (.clamp 3) = .ok (.clamp 2 5 : Span .i64) := by decide
  obtain ⟨-, huse, -, hwalk⟩ := retained_after_use threeSlots hp (by decide) (.clamp 2) (.clamp 3)
    test ()
  obtain ⟨hcollect, hany, -⟩ := huse _ hquery
  exact ⟨rfl, hcollect false #[], hany rfl, hwalk [] "all" [1, 5] rfl⟩

end PackedTree

end IntervalIndex
