import IntervalIndex.Proofs.Scratch.BoundedPool
import IntervalIndex.Session

namespace IntervalIndex

open Scratch

variable {ν α β σ : Type}

namespace Scratch.Pool

/-- What a new pool becomes when buffers are taken and come back, in whatever state, and its limits
are set. -/
inductive Reachable : Pool ν → Prop
  | start (limits : Limits) : Reachable (withLimits limits)
  | acquire {p : Pool ν} : Reachable p → Reachable p.acquire.2
  | release {p : Pool ν} (b : Buffer ν) : Reachable p → Reachable (p.release b)
  | configure {p : Pool ν} (limits : Limits) : Reachable p → Reachable (p.configure limits)

variable {p : Pool ν}

theorem Reachable.bounded (h : p.Reachable) : p.Bounded := by
  induction h with
  | start limits => exact bounded_withLimits limits
  | acquire _ ih => exact ih.acquire
  | release b _ ih => exact ih.release b
  | configure limits _ ih => exact ih.configure limits

theorem Bounded.acquire_capacity (h : p.Bounded) :
    p.acquire.1.capacity ≤ p.limits.maxCapacity := by
  rw [Pool.acquire]
  split
  · exact Nat.zero_le _
  · next b rest hidle => exact h.capacity_le b (hidle ▸ List.mem_cons_self)

theorem acquire_retained (p : Pool ν) : p.acquire.2.retained = p.retained - 1 := by
  rw [Pool.acquire]
  split
  · next hidle => rw [retained, hidle, List.length_nil]
  · next b rest hidle => simp only [retained, hidle, List.length_cons, Nat.add_sub_cancel]

theorem release_retained {b : Buffer ν} (hb : b.capacity ≤ p.limits.maxCapacity) :
    (p.release b).retained =
      if p.retained < p.limits.maxBuffers then p.retained + 1 else p.retained := by
  by_cases hroom : p.idle.length < p.limits.maxBuffers
  · rw [Pool.release, if_pos ⟨hb, hroom⟩, retained, retained, if_pos hroom, List.length_cons]
  · rw [Pool.release, if_neg fun h => hroom h.2, retained, if_neg hroom]

theorem Bounded.retained_release_acquire (h : p.Bounded) {b : Buffer ν}
    (hb : b.capacity ≤ p.limits.maxCapacity) :
    (p.acquire.2.release b).retained = max p.retained (min 1 p.limits.maxBuffers) := by
  have hle := h.retained_le
  have hcapacity : b.capacity ≤ p.acquire.2.limits.maxCapacity := by rwa [acquire_limits]
  rw [release_retained hcapacity, acquire_retained, acquire_limits]
  split <;> omega

end Scratch.Pool

theorem LinkTree.retained_borrow {p : Pool ν} (h : p.Bounded) {use : Buffer ν → β × Buffer ν}
    (huse : ∀ b : Buffer ν, b.toStack = [] → b.capacity ≤ p.limits.maxCapacity →
      (use b).2.capacity ≤ p.limits.maxCapacity) :
    ((borrow (some p) use).2.getD p).retained =
      max p.retained (min 1 p.limits.maxBuffers) :=
  h.retained_release_acquire (huse _ h.clean.acquire.1 h.acquire_capacity)

namespace Session

variable {s : Session ν α}

theorem close_reachable (h : s.pool.Reachable) (name : String) :
    (s.close name).pool.Reachable := by
  rw [close]
  split
  · exact h.release _
  · exact h

theorem borrow_reachable {p : Pool ν} (h : p.Reachable) (use : Buffer ν → β × Buffer ν) :
    ((LinkTree.borrow (some p) use).2.getD p).Reachable :=
  h.acquire.release _

theorem step_reachable (h : s.pool.Reachable) (r : Request ν σ α) :
    (s.step r).2.pool.Reachable := by
  cases r with
  | openWalk name tree => exact close_reachable (s := ⟨_, s.walks⟩) h.acquire name
  | advance name visits =>
    simp only [step, advance]
    split <;> exact h
  | closeWalk name => exact close_reachable h name
  | collect tree start length test firstOnly out state =>
    simp only [step, LinkTree.collect]
    split
    · exact h
    · exact borrow_reachable h _
  | any tree span start length test state =>
    simp only [step, LinkTree.any]
    split
    · exact h
    · split
      · exact h
      · exact borrow_reachable h _
  | configure limits => exact h.configure limits

theorem run_reachable (h : s.pool.Reachable) (requests : List (Request ν σ α)) :
    (s.run requests).2.pool.Reachable := by
  induction requests generalizing s with
  | nil => exact h
  | cons r rs ih => exact ih (step_reachable h r)

end Session

end IntervalIndex
