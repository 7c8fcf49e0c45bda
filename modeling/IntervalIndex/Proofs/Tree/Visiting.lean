import IntervalIndex.Proofs.Tree.Asking
import IntervalIndex.Proofs.Tree.FreshStack
import IntervalIndex.Proofs.Tree.Pruning
import Mathlib.Logic.Function.Iterate

namespace IntervalIndex

open Scratch Test

variable {ν α σ : Type} {T : PosType}

namespace LinkTree

/-- Every node has a value and names a node that has one, right or wrong. -/
structure Readable (t : LinkTree ν α) : Prop where
  value : ∀ n ∈ t.unfold.preOrder, ∃ v, t.value n = .ok v
  furthest : ∀ n ∈ t.unfold.preOrder, ∃ m v, t.furthest n = .ok m ∧ t.value m = .ok v

theorem Readable.furthestEnd {t : LinkTree ν α} (ht : t.Readable) (span : α → Span T) {n : ν}
    (hn : n ∈ t.unfold.preOrder) : ∃ e, t.furthestEnd span n = .ok e := by
  obtain ⟨m, v, hm, hv⟩ := ht.furthest n hn
  refine ⟨(span v).stop, ?_⟩
  rw [LinkTree.furthestEnd, hm]
  simp only [bind, Except.bind, hv]
  rfl

theorem lopsided_readable : lopsided.toLinkTree.Readable := by
  have hnodes : ∀ n ∈ lopsided.toLinkTree.unfold.preOrder,
      n = (0, 3) ∨ n = (1, 2) ∨ n = (2, 1) := by
    simp [lopsided_unfold, BinTree.preOrder]
  constructor
  · intro n hn
    rcases hnodes n hn with rfl | rfl | rfl <;> exact ⟨_, rfl⟩
  · intro n hn
    rcases hnodes n hn with rfl | rfl | rfl <;> exact ⟨(1, 0), _, rfl, rfl⟩

variable (t : LinkTree ν α) (span : α → Span T)

def endsFrom (start : Pos T) (n : ν) : Bool :=
  granted ((t.furthestEnd span n).map fun e => decide (start ≤ e))

def startsBy (bound : Int) (n : ν) : Bool :=
  granted ((t.value n).map fun v => decide ((span v).start.val ≤ bound))

/-- The tree from the root on. A left child stays if its reported end reaches the query, a right child
if in addition its parent starts within the query or at its end. -/
def reached (start length : Pos T) : BinTree ν :=
  t.unfold.prune (fun _ child => t.endsFrom span start child) fun parent child =>
    t.endsFrom span start child && t.startsBy span (start.val + length.val) parent

variable {start length stop : Pos T}

theorem reached_eq_pruned (hstop : start.add? length = some stop) :
    t.reached span start length = t.pruned span ⟨start, stop⟩ t.root? := by
  have hval : stop.val = start.val + length.val := Pos.add?_eq_some_iff.mp hstop
  have hleft : ∀ c, granted (t.keepsLeft span ⟨start, stop⟩ c) = t.endsFrom span start c := by
    intro c
    rw [keepsLeft, reaches, endsFrom]
    cases t.furthestEnd span c <;> rfl
  have hright : ∀ n c, granted (t.value n >>= fun v => t.keepsRight span ⟨start, stop⟩ v c) =
      (t.endsFrom span start c && t.startsBy span (start.val + length.val) n) := by
    intro n c
    rw [← hleft, startsBy, keepsLeft]
    cases t.value n with
    | error f => simp [bind, Except.bind, Except.map, granted]
    | ok v =>
      simp only [bind, Except.bind, Except.map, keepsRight, Pos.le_iff, hval]
      by_cases hv : (span v).start.val ≤ start.val + length.val
      · simp [hv, granted]
      · simp [hv, granted]
  simp only [reached, pruned, hleft, hright]
  rfl

end LinkTree

namespace Search

def visiting? (q : Search ν σ α) : Option ν :=
  match q.phase with
  | .visit => q.candidates.top?
  | .right _ _ | .left _ | .done _ => none

variable (t : LinkTree ν α) (span : α → Span T) (query : Span T) (test : Test σ α)

def visited (q : Search ν σ α) (steps : Nat) : List ν :=
  (List.range steps).filterMap fun i => ((step t span query test)^[i] q).visiting?

theorem visited_succ (q : Search ν σ α) (steps : Nat) :
    visited t span query test q (steps + 1) =
      q.visiting?.toList ++ visited t span query test (q.step t span query test) steps := by
  rw [visited, List.range_succ_eq_map, List.filterMap_cons, List.filterMap_map]
  cases h : q.visiting? <;> simp [visited, h, Function.comp_def]

theorem prefix_visited (q : Search ν σ α) {steps more : Nat} (h : steps ≤ more) :
    visited t span query test q steps <+: visited t span query test q more := by
  obtain ⟨rest, rfl⟩ := Nat.exists_eq_add_of_le h
  rw [visited, visited, List.range_add, List.filterMap_append]
  exact List.prefix_append _ _

variable {t span query test} {q : Search ν σ α}

theorem step_of_done {found : Except Fault Bool} (h : q.phase = .done found) :
    q.step t span query test = q := by
  rw [step, h]

theorem visited_of_done {found : Except Fault Bool} (h : q.phase = .done found) (steps : Nat) :
    visited t span query test q steps = [] := by
  induction steps with
  | zero => rfl
  | succ steps ih =>
    rw [visited_succ, step_of_done h, ih, visiting?, h]
    rfl

/-- A search that visits has no node left, or asks its test about the first of them. After that it goes
on with the others, or ends with the answer. -/
theorem visiting_step (test : Test σ α) (hphase : q.phase = .visit) {vs : List α}
    (hvs : (q.visits t span query).mapM t.value = .ok vs) :
    (q.visiting? = none ∧ q.visits t span query = [] ∧
      ∃ found, (q.step t span query test).phase = .done found) ∨
    ∃ n ns v vs', q.visiting? = some n ∧ q.visits t span query = n :: ns ∧ vs = v :: vs' ∧
      ns.mapM t.value = .ok vs' ∧ (q.step t span query test).state = (test q.state v).2 ∧
      if ends true (test q.state v).1 then
        (q.step t span query test).phase = .done (test q.state v).1
      else (∀ found, (q.step t span query test).phase ≠ .done found) ∧
        (q.step t span query test).visits t span query = ns := by
  obtain ⟨candidates, state, phase⟩ := q
  obtain rfl : phase = .visit := hphase
  have hstep : step t span query test ⟨candidates, state, .visit⟩ =
      visit t test ⟨candidates, state, .visit⟩ := rfl
  have htop : visiting? (⟨candidates, state, .visit⟩ : Search ν σ α) = candidates.toStack.head? :=
    candidates.top?_eq_head?
  obtain ⟨hc, hs⟩ | ⟨n, rest, hc, ⟨f, hv, hs⟩ | ⟨v, hv, hs⟩⟩ :=
    visit_cases t test ⟨candidates, state, .visit⟩
  · refine .inl ⟨by rw [htop, hc]; rfl, by simp [visits, hc], .ok false, ?_⟩
    rw [hstep, hs]
  · obtain ⟨ns, hvisits⟩ := visits_cons_of_top t span query state hc
    obtain ⟨v, -, hv'⟩ := mem_of_mapM hvs (hvisits ▸ List.mem_cons_self)
    cases hv.symm.trans hv'
  · have hvisits := visits_of_top t span query state hc hv
    rw [hvisits, mapM_eq_ok_iff, List.forall₂_cons_left_iff] at hvs
    obtain ⟨v', vs', hv', hvs', rfl⟩ := hvs
    obtain rfl : v = v' := Except.ok.inj (hv.symm.trans hv')
    refine .inr ⟨n, _, v, vs', by rw [htop, hc]; rfl, hvisits, rfl, mapM_eq_ok_iff.mpr hvs', ?_⟩
    rw [hstep, hs]
    rcases test state v with ⟨f | _ | _, s⟩
    · exact ⟨rfl, rfl⟩
    · exact ⟨rfl, by simp, rfl⟩
    · exact ⟨rfl, rfl⟩

/-- A search comes to the nodes left to visit, in turn, as far as its test is asked about their values,
if it is given as many steps as it may need. -/
theorem visited_eq_take (h : q.HasEnds t span) (hgoing : ∀ found, q.phase ≠ .done found)
    {vs : List α} (hvs : (q.visits t span query).mapM t.value = .ok vs) {steps : Nat}
    (hsteps : work t q ≤ steps) : visited t span query test q steps =
      (q.visits t span query).take (test.asked true q.state vs).length := by
  -- by induction on the steps, of which the work that is left is a bound
  induction steps generalizing q vs with
  | zero =>
    have hwork := work_step t span query test q hgoing
    omega
  | succ steps ih =>
    have hwork : work t (q.step t span query test) ≤ steps := by
      have hlt := work_step t span query test q hgoing
      omega
    have hends := (outcome_step query test h hgoing).2
    rw [visited_succ]
    by_cases hvisit : q.phase = .visit
    · obtain ⟨hnone, hvisits, found, hdone⟩ |
        ⟨n, ns, v, vs', hnext, hvisits, rfl, hvs', hstate, hlast⟩ := visiting_step test hvisit hvs
      · rw [hnone, hvisits, visited_of_done hdone, List.take_nil]
        rfl
      · rw [hnext, hvisits, asked_cons, List.length_cons, List.take_succ_cons]
        split at hlast
        · next hlast' =>
          rw [visited_of_done hlast, if_pos hlast']
          rfl
        · next hlast' =>
          obtain ⟨hgoing', hvisits'⟩ := hlast
          rw [ih hends hgoing' (hvisits' ▸ hvs') hwork, hvisits', hstate, if_neg hlast']
          rfl
    · -- a step that stacks a child comes to no node
      have hnone : q.visiting? = none := by
        rw [visiting?]
        split
        · contradiction
        all_goals rfl
      obtain ⟨candidates, phase, hs, hgoing', hvisits, -⟩ := visits_step query test h hgoing hvisit
      rw [hs] at hwork hends ⊢
      rw [← hvisits] at hvs ⊢
      rw [hnone, ih hends hgoing' hvs hwork]
      rfl

theorem iterate_step {steps : Nat} (hsteps : work t q ≤ steps) : ∃ candidates state found,
    (step t span query test)^[steps] q = ⟨candidates, state, .done found⟩ ∧
      q.run t span query test = (⟨state, found.mapError .fault⟩, candidates) := by
  fun_induction Search.run (T := T) t span query test q generalizing steps with
  | case1 q found hphase =>
    refine ⟨q.candidates, q.state, found, ?_, rfl⟩
    rw [Function.iterate_fixed (step_of_done hphase), ← hphase]
  | case2 q hphase ih | case3 q n v hphase ih | case4 q n hphase ih =>
    have hwork := work_step t span query test q (by simp [hphase])
    obtain ⟨steps, rfl⟩ := Nat.exists_eq_succ_of_ne_zero (show steps ≠ 0 by omega)
    rw [Function.iterate_succ_apply]
    exact ih (by omega)

theorem work_start (root : ν) (s : σ) {b : Buffer ν} (hb : b.toStack = []) :
    work t (start root s b : Search ν σ α) = 3 * (t.subtree root).size + 1 := by
  simp [work, start, ahead, below, hb]

end Search

namespace LinkTree

variable {t : LinkTree ν α} {span : α → Span T} {start length stop : Pos T}

theorem Readable.exists_values (ht : t.Readable) (span : α → Span T) (start length : Pos T) :
    ∃ values, (t.reached span start length).preOrder.mapM t.value = .ok values :=
  exists_mapM fun n hn => ht.value n ((BinTree.preOrder_prune_sublist _ _ _).subset hn)

theorem any_fst_eq (ht : t.Readable) (hlength : 0 ≤ length.val)
    (hstop : start.add? length = some stop) {values : List α}
    (hvalues : (t.reached span start length).preOrder.mapM t.value = .ok values) (test : Test σ α)
    (s : σ) {pool : Option (Pool ν)} (hpool : ∀ p ∈ pool, p.Clean) :
    (t.any span start length test s pool).1 =
      ⟨test.after s ((test.asked true s values).map Prod.fst),
        reply (test.asked true s values) !(hits (test.asked true s values)).isEmpty⟩ := by
  rw [any_fst (fun n hn => ht.furthestEnd span hn) (ofLength_of_add? hlength hstop) test s hpool,
    ← reached_eq_pruned t span hstop, Searched.ofNodes_eq test hvalues]

/-- From the root on a search comes to the nodes that the query reaches, as far as its test is asked. -/
theorem visited_eq (ht : t.Readable) (hstop : start.add? length = some stop) {values : List α}
    (hvalues : (t.reached span start length).preOrder.mapM t.value = .ok values) (test : Test σ α)
    (s : σ) {root : ν} (hroot : t.root? = some root) {b : Buffer ν} (hb : b.toStack = [])
    {steps : Nat} (hsteps : 3 * t.unfold.size < steps) :
    Search.visited t span ⟨start, stop⟩ test (.start root s b) steps =
      (t.reached span start length).preOrder.take (test.asked true s values).length := by
  have hunfold : t.unfold = t.subtree root := by
    rw [unfold, hroot]
    rfl
  have hends : t.EndsBelow span root := fun n hn => ht.furthestEnd span (hunfold ▸ hn)
  have hvisits : (Search.start root s b : Search ν σ α).visits t span ⟨start, stop⟩ =
      (t.reached span start length).preOrder := by
    rw [Search.visits_start ⟨start, stop⟩ root s hb, ← hroot, reached_eq_pruned t span hstop]
  have hwork : Search.work t (.start root s b) ≤ steps := by
    rw [Search.work_start root s hb, ← hunfold]
    exact hsteps
  rw [Search.visited_eq_take (Search.hasEnds_start hends s hb) (by simp [Search.start])
    (hvisits ▸ hvalues) hwork, hvisits]
  rfl

theorem nodup_visited (ht : t.Readable) (hnodup : t.unfold.preOrder.Nodup)
    (hstop : start.add? length = some stop) (test : Test σ α) (s : σ) {root : ν}
    (hroot : t.root? = some root) {b : Buffer ν} (hb : b.toStack = []) (steps : Nat) :
    (Search.visited t span ⟨start, stop⟩ test (.start root s b) steps).Nodup := by
  obtain ⟨values, hvalues⟩ := ht.exists_values span start length
  have hall := visited_eq ht hstop hvalues test s hroot hb
    (Nat.le_max_right steps (3 * t.unfold.size + 1))
  refine List.Nodup.sublist ?_ hnodup
  calc (Search.visited t span ⟨start, stop⟩ test (.start root s b) steps).Sublist _ :=
        (Search.prefix_visited t span ⟨start, stop⟩ test _ (Nat.le_max_left _ _)).sublist
    _ = (t.reached span start length).preOrder.take _ := hall
    List.Sublist _ (t.reached span start length).preOrder := List.take_sublist _ _
    List.Sublist _ t.unfold.preOrder := BinTree.preOrder_prune_sublist _ _ _

theorem any_eq_iterate (hlength : 0 ≤ length.val) (hstop : start.add? length = some stop)
    (test : Test σ α) (s : σ) {root : ν} (hroot : t.root? = some root) {b : Buffer ν}
    (hb : b.toStack = []) :
    ∃ candidates state found,
      (Search.step t span ⟨start, stop⟩ test)^[3 * t.unfold.size + 1] (.start root s b) =
        ⟨candidates, state, .done found⟩ ∧
      ∀ pool : Option (Pool ν), (∀ p ∈ pool, p.Clean) →
        (t.any span start length test s pool).1 = ⟨state, found.mapError .fault⟩ := by
  have hwork : Search.work t (.start root s b) ≤ 3 * t.unfold.size + 1 := by
    rw [Search.work_start root s hb, unfold, hroot]
    exact Nat.le_refl _
  obtain ⟨candidates, state, found, hiterate, hrun⟩ := Search.iterate_step hwork
  refine ⟨candidates, state, found, hiterate, fun pool hpool => ?_⟩
  rw [t.any_eq_run start length test s span (ofLength_of_add? hlength hstop) hroot hb hpool, hrun]

end LinkTree

end IntervalIndex
