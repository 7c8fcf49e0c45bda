import IntervalIndex.Proofs.Scratch.CleanPool
import IntervalIndex.Scratch.Bench

namespace IntervalIndex.Scratch

variable {ν : Type}

namespace Pool

/-- The pool keeps to its limits: what is idle is empty and small enough, and there is not too much
of it. -/
structure Bounded (p : Pool ν) : Prop where
  clean : p.Clean
  capacity_le : ∀ b ∈ p.idle, b.capacity ≤ p.limits.maxCapacity
  retained_le : p.retained ≤ p.limits.maxBuffers

theorem bounded_withLimits (limits : Limits) : (withLimits limits : Pool ν).Bounded where
  clean := clean_withLimits limits
  capacity_le := fun _ hb => by cases hb
  retained_le := Nat.zero_le _

variable {p : Pool ν}

theorem acquire_limits (p : Pool ν) : p.acquire.2.limits = p.limits := by
  rw [acquire]
  split <;> rfl

theorem release_limits (p : Pool ν) (b : Buffer ν) : (p.release b).limits = p.limits := by
  rw [release]
  split <;> rfl

theorem Bounded.acquire (h : p.Bounded) : p.acquire.2.Bounded := by
  refine ⟨h.clean.acquire.2, ?_, ?_⟩
  · rw [acquire_limits]
    intro b hb
    apply h.capacity_le
    rw [Pool.acquire] at hb
    split at hb
    · exact hb
    · next hidle => exact hidle ▸ List.mem_cons_of_mem _ hb
  · rw [acquire_limits]
    apply Nat.le_trans _ h.retained_le
    unfold Pool.acquire retained
    split
    · exact Nat.le_refl _
    · next hidle => simp [hidle]

theorem Bounded.release (h : p.Bounded) (b : Buffer ν) : (p.release b).Bounded := by
  by_cases hfits : b.capacity ≤ p.limits.maxCapacity ∧ p.idle.length < p.limits.maxBuffers
  · refine ⟨h.clean.release b, ?_, ?_⟩ <;> rw [Pool.release, if_pos hfits]
    · intro c hc
      cases hc with
      | head => exact hfits.1
      | tail _ hc => exact h.capacity_le c hc
    · exact hfits.2
  · rw [Pool.release, if_neg hfits]
    exact h

theorem Bounded.configure (h : p.Bounded) (limits : Limits) : (p.configure limits).Bounded := by
  refine ⟨h.clean.configure limits, ?_, ?_⟩
  · intro b hb
    exact of_decide_eq_true (List.mem_filter.mp (List.mem_of_mem_drop hb)).2
  · simp only [retained, Pool.configure, List.length_drop]
    omega

end Pool

theorem Stack.giveBack_bounded {p : Pool ν} (h : p.Bounded) (s : Stack ν) :
    (s.giveBack p).Bounded := by
  rw [giveBack]
  split
  · exact h.release s.buffer
  · exact h

theorem Stack.giveBack_limits (s : Stack ν) (p : Pool ν) : (s.giveBack p).limits = p.limits := by
  rw [giveBack]
  split
  · exact p.release_limits s.buffer
  · rfl

def Action.limits (current : Limits) : Action ν → Limits
  | .configure limits => limits
  | _ => current

/-- The same action for someone who does without stacks outside the pool: where one would be taken,
its name is only given up. -/
def Action.pooledOnly : Action ν → Action ν
  | .unpooled name => .drop name
  | a => a

namespace Bench

variable {b : Bench ν}

theorem drop_bounded (h : b.pool.Bounded) (name : String) : (b.drop name).pool.Bounded := by
  rw [drop]
  split
  · exact Stack.giveBack_bounded h _
  · exact h

theorem drop_limits (b : Bench ν) (name : String) : (b.drop name).pool.limits = b.pool.limits := by
  rw [drop]
  split
  · exact Stack.giveBack_limits _ b.pool
  · rfl

theorem step_bounded (h : b.pool.Bounded) (a : Action ν) : (b.step a).pool.Bounded := by
  cases a with
  | acquire name => exact drop_bounded (b := ⟨b.pool.acquire.2, b.held⟩) h.acquire name
  | unpooled name | drop name => exact drop_bounded h name
  | push name x | pushAll name xs | pop name | clear name | reserveExact name more => exact h
  | configure limits => exact h.configure limits

theorem step_limits (b : Bench ν) (a : Action ν) :
    (b.step a).pool.limits = a.limits b.pool.limits := by
  cases a with
  | acquire name =>
    exact (drop_limits ⟨b.pool.acquire.2, b.held⟩ name).trans b.pool.acquire_limits
  | unpooled name | drop name => exact b.drop_limits name
  | push name x | pushAll name xs | pop name | clear name | reserveExact name more => rfl
  | configure limits => rfl

theorem run_bounded (h : b.pool.Bounded) (actions : List (Action ν)) :
    (b.run actions).pool.Bounded := by
  induction actions generalizing b with
  | nil => exact h
  | cons a rest ih => exact ih (step_bounded h a)

theorem run_limits (b : Bench ν) (actions : List (Action ν)) :
    (b.run actions).pool.limits = actions.foldl Action.limits b.pool.limits := by
  induction actions generalizing b with
  | nil => rfl
  | cons a rest ih =>
    have hrest := ih (b.step a)
    rw [step_limits] at hrest
    exact hrest

def Distinct (b : Bench ν) : Prop := (b.held.map (·.1)).Nodup

theorem drop_held (b : Bench ν) (name : String) :
    (b.drop name).held = b.held.filter (·.1 != name) := by
  rw [drop]
  split
  · rfl
  · next hnone =>
    have hnone := List.lookup_eq_none_iff.mp hnone
    symm
    apply List.filter_eq_self.mpr
    intro entry he
    rw [bne_comm]
    exact hnone entry he

theorem drop_distinct (h : b.Distinct) (name : String) : (b.drop name).Distinct := by
  rw [Distinct, drop_held]
  exact h.sublist (List.filter_sublist.map _)

theorem hold_distinct (h : b.Distinct) (name : String) (s : Stack ν) : (b.hold name s).Distinct := by
  have hnew : name ∉ (b.drop name).held.map (·.1) := by
    rw [drop_held]
    simp
  exact List.nodup_cons.mpr ⟨hnew, drop_distinct h name⟩

theorem update_distinct (h : b.Distinct) (name : String) (f : Buffer ν → Buffer ν) :
    (b.update name f).Distinct := by
  have hnames : (b.update name f).held.map (·.1) = b.held.map (·.1) := by
    rw [update, List.map_map]
    apply List.map_congr_left
    intro entry _
    by_cases hn : entry.1 = name <;> simp [hn]
  rw [Distinct, hnames]
  exact h

theorem step_distinct (h : b.Distinct) (a : Action ν) : (b.step a).Distinct := by
  cases a with
  | acquire name => exact hold_distinct (b := ⟨b.pool.acquire.2, b.held⟩) h name _
  | unpooled name => exact hold_distinct h name _
  | drop name => exact drop_distinct h name
  | push name x | pushAll name xs | pop name | clear name | reserveExact name more =>
    exact update_distinct h name _
  | configure limits => exact h

def pooledOnly (b : Bench ν) : Bench ν := ⟨b.pool, b.held.filter (·.2.pooled)⟩

theorem stack?_pooledOnly (h : b.Distinct) (name : String) :
    b.pooledOnly.stack? name = (b.stack? name).filter (·.pooled) := by
  obtain ⟨pool, held⟩ := b
  rw [Distinct] at h
  simp only [stack?, pooledOnly]
  induction held with
  | nil => rfl
  | cons entry rest ih =>
    obtain ⟨n, s⟩ := entry
    obtain ⟨hn, hrest⟩ := List.nodup_cons.mp h
    have ih := ih hrest
    by_cases hname : name = n
    · subst hname
      have hother : (rest.filter (·.2.pooled)).lookup name = none := by
        apply List.lookup_eq_none_iff.mpr
        intro other hmem
        have hmem := List.mem_map_of_mem (f := (·.1)) (List.mem_filter.mp hmem).1
        exact bne_iff_ne.mpr fun he => hn (he ▸ hmem)
      by_cases hs : s.pooled = true <;> simp [hs, hother, Option.filter_some]
    · have hne : (name == n) = false := beq_eq_false_iff_ne.mpr hname
      by_cases hs : s.pooled = true <;> simp [List.lookup_cons, hs, hne, ih]

theorem drop_pooledOnly (h : b.Distinct) (name : String) :
    (b.drop name).pooledOnly = b.pooledOnly.drop name := by
  have hheld : (b.drop name).pooledOnly.held = (b.pooledOnly.drop name).held := by
    rw [drop_held]
    simp only [pooledOnly, drop_held, List.filter_filter, Bool.and_comm]
  have hpool : (b.drop name).pool = (b.pooledOnly.drop name).pool := by
    unfold drop
    rw [stack?_pooledOnly h]
    cases hs : b.stack? name with
    | none => rfl
    | some s =>
      rw [Option.filter_some]
      by_cases hp : s.pooled = true <;> simp [hp, Stack.giveBack, pooledOnly]
  calc (b.drop name).pooledOnly
      = ⟨(b.drop name).pool, (b.drop name).pooledOnly.held⟩ := rfl
    _ = b.pooledOnly.drop name := by rw [hheld, hpool]

theorem update_pooledOnly (b : Bench ν) (name : String) (f : Buffer ν → Buffer ν) :
    (b.update name f).pooledOnly = b.pooledOnly.update name f := by
  simp only [update, pooledOnly, List.filter_map]
  congr 2
  apply List.filter_congr
  intro entry _
  by_cases hn : entry.1 = name <;> simp [hn]

theorem hold_pooledOnly (h : b.Distinct) (name : String) (s : Stack ν) :
    (b.hold name s).pooledOnly =
      if s.pooled then b.pooledOnly.hold name s else b.pooledOnly.drop name := by
  have hdrop := drop_pooledOnly h name
  by_cases hs : s.pooled = true
  · rw [if_pos hs]
    unfold hold
    rw [← hdrop]
    simp [pooledOnly, hs]
  · rw [if_neg hs, ← hdrop]
    simp [hold, pooledOnly, hs]

theorem step_pooledOnly (h : b.Distinct) (a : Action ν) :
    (b.step a).pooledOnly = b.pooledOnly.step a.pooledOnly := by
  cases a with
  | acquire name => exact hold_pooledOnly (b := ⟨b.pool.acquire.2, b.held⟩) h name ⟨_, true⟩
  | unpooled name => exact hold_pooledOnly h name .unpooled
  | drop name => exact drop_pooledOnly h name
  | push name x | pushAll name xs | pop name | clear name | reserveExact name more =>
    exact update_pooledOnly b name _
  | configure limits => rfl

theorem run_pooledOnly (h : b.Distinct) (actions : List (Action ν)) :
    (b.run actions).pooledOnly = b.pooledOnly.run (actions.map Action.pooledOnly) := by
  induction actions generalizing b with
  | nil => rfl
  | cons a rest ih =>
    have hrest := ih (step_distinct h a)
    rw [step_pooledOnly h a] at hrest
    exact hrest

theorem stack?_acquire (b : Bench ν) (name : String) :
    (b.step (.acquire name)).stack? name = some ⟨b.pool.acquire.1, true⟩ := by
  simp [step, hold, stack?]

theorem pool_drop {name : String} {s : Stack ν} (h : b.stack? name = some s) :
    (b.step (.drop name)).pool = s.giveBack b.pool := by
  simp only [step, drop, h]

/-- Over any run an idle buffer is empty and within the limits in force, and so is the number of them,
and a stack that is acquired is empty. A stack that comes back is judged by the limits of that moment,
and the pool is the same as if stacks outside it had never been taken. -/
theorem run_keeps_limits (limits : Limits) (actions : List (Action ν)) :
    let b := (start (Pool.withLimits limits)).run actions
    let current := actions.foldl Action.limits limits
    b.pool.limits = current ∧
    (∀ buffer ∈ b.pool.idle, buffer.toStack = [] ∧ buffer.capacity ≤ current.maxCapacity) ∧
    b.pool.retained ≤ current.maxBuffers ∧
    (∀ name, ∃ buffer : Buffer ν,
      (b.step (.acquire name)).stack? name = some ⟨buffer, true⟩ ∧ buffer.toStack = []) ∧
    (∀ name s, b.stack? name = some s → (b.step (.drop name)).pool =
      if s.pooled = true ∧ s.buffer.capacity ≤ current.maxCapacity ∧
          b.pool.retained < current.maxBuffers then
        ⟨s.buffer.clear :: b.pool.idle, current⟩
      else b.pool) ∧
    b.pool = ((start (Pool.withLimits limits)).run (actions.map Action.pooledOnly)).pool := by
  intro b current
  have hlimits : b.pool.limits = current := run_limits _ actions
  have hbounded : b.pool.Bounded := run_bounded (Pool.bounded_withLimits limits) actions
  refine ⟨hlimits, ?_, hlimits ▸ hbounded.retained_le, ?_, ?_, ?_⟩
  · intro buffer hb
    exact ⟨hbounded.clean buffer hb, hlimits ▸ hbounded.capacity_le buffer hb⟩
  · intro name
    exact ⟨_, stack?_acquire b name, hbounded.clean.acquire.1⟩
  · intro name s hs
    rw [pool_drop hs, Stack.giveBack, Pool.release, hlimits]
    by_cases hp : s.pooled = true <;> simp [hp, Pool.retained]
  · have hstart : (start (Pool.withLimits limits) : Bench ν).Distinct := List.nodup_nil
    have hrun := congrArg Bench.pool (run_pooledOnly hstart actions)
    exact hrun

/-- The limits are lowered while a stack is held that has grown past the new ones. -/
def loweredWhileHeld : List (Action Nat) :=
  [.acquire "low", .acquire "high", .unpooled "own", .pushAll "high" [1, 2, 3, 4, 5],
    .push "own" 1, .drop "low", .configure ⟨2, 4⟩]

theorem run_keeps_limits_lowered :
    let b := (start (Pool.withLimits ⟨3, 8⟩)).run loweredWhileHeld
    (∀ buffer ∈ b.pool.idle, buffer.toStack = [] ∧ buffer.capacity ≤ 4) ∧
      b.pool.retained = 1 ∧ (b.step (.drop "high")).pool = b.pool ∧
      (b.step (.drop "own")).pool = b.pool := by
  intro b
  obtain ⟨-, hidle, -, -, hdrop, -⟩ := run_keeps_limits ⟨3, 8⟩ loweredWhileHeld
  refine ⟨hidle, rfl, ?_, ?_⟩
  · exact hdrop "high" ⟨⟨#[1, 2, 3, 4, 5], 8, by decide⟩, true⟩ rfl
  · exact hdrop "own" ⟨⟨#[1], 4, by decide⟩, false⟩ rfl

end Bench

end IntervalIndex.Scratch
