import IntervalIndex.Proofs.Tree.Scanning

namespace IntervalIndex

open Scratch

variable {ν α σ : Type} {T : PosType}

namespace BinTree

def cut (keep : ν → Bool) : BinTree ν → BinTree ν
  | leaf => leaf
  | node l n r => if keep n then node l n r else leaf

/-- The tree without the children that are not kept below their parent. -/
def prune (keepLeft keepRight : ν → ν → Bool) : BinTree ν → BinTree ν
  | leaf => leaf
  | node l n r =>
    node ((l.prune keepLeft keepRight).cut (keepLeft n)) n
      ((r.prune keepLeft keepRight).cut (keepRight n))

theorem preOrder_perm_inOrder (b : BinTree ν) : b.preOrder.Perm b.inOrder := by
  induction b with
  | leaf => exact .rfl
  | node l n r ihl ihr => exact ((ihl.append ihr).cons n).trans List.perm_middle.symm

theorem mem_preOrder_iff {b : BinTree ν} {m : ν} : m ∈ b.preOrder ↔ m ∈ b.inOrder :=
  b.preOrder_perm_inOrder.mem_iff

theorem preOrder_cut_sublist (keep : ν → Bool) (b : BinTree ν) :
    (b.cut keep).preOrder.Sublist b.preOrder := by
  cases b with
  | leaf => exact .refl _
  | node l n r =>
    rw [cut]
    split
    · exact .refl _
    · exact List.nil_sublist _

theorem preOrder_prune_sublist (keepLeft keepRight : ν → ν → Bool) (b : BinTree ν) :
    (b.prune keepLeft keepRight).preOrder.Sublist b.preOrder := by
  induction b with
  | leaf => exact .refl _
  | node l n r ihl ihr =>
    have hl := (preOrder_cut_sublist (keepLeft n) (l.prune keepLeft keepRight)).trans ihl
    have hr := (preOrder_cut_sublist (keepRight n) (r.prune keepLeft keepRight)).trans ihr
    exact (hl.append hr).cons_cons n

end BinTree

def granted : Except Fault Bool → Bool
  | .ok b => b
  | .error _ => false

def Searched.ofNodes (t : LinkTree ν α) (test : Test σ α) : List ν → σ → Searched T σ
  | [], s => ⟨s, .ok false⟩
  | n :: ns, s =>
    match t.value n with
    | .error f => ⟨s, .error (.fault f)⟩
    | .ok v =>
      match test s v with
      | (.error f, s) => ⟨s, .error (.fault f)⟩
      | (.ok true, s) => ⟨s, .ok true⟩
      | (.ok false, s) => ofNodes t test ns s

namespace LinkTree

theorem below_induction (t : LinkTree ν α) {motive : Option ν → Prop} (none : motive none)
    (some : ∀ n, motive (t.left? n) → motive (t.right? n) → motive (some n)) (o : Option ν) :
    motive o := by
  have hsome : ∀ n, motive (.some n) := by
    intro n
    induction n using t.links_end.induction with
    | _ n ih =>
      refine some n ?_ ?_
      · cases h : t.left? n with
        | none => exact none
        | some c => exact ih c (.inl h)
      · cases h : t.right? n with
        | none => exact none
        | some c => exact ih c (.inr h)
  cases o with
  | none => exact none
  | some n => exact hsome n

variable (t : LinkTree ν α) (span : α → Span T) (query : Span T)

/-- What is left below a node when each child stays only if it is worth a visit. -/
def pruned (o : Option ν) : BinTree ν :=
  (t.below o).prune (fun _ c => granted (t.keepsLeft span query c)) fun n c =>
    granted (t.value n >>= fun v => t.keepsRight span query v c)

theorem pruned_some (n : ν) : t.pruned span query (some n) =
    .node ((t.pruned span query (t.left? n)).cut fun c => granted (t.keepsLeft span query c)) n
      ((t.pruned span query (t.right? n)).cut fun c =>
        granted (t.value n >>= fun v => t.keepsRight span query v c)) := by
  rw [pruned, below_some, BinTree.prune]
  rfl

def EndsBelow (n : ν) : Prop := ∀ m ∈ (t.subtree n).preOrder, ∃ e, t.furthestEnd span m = .ok e

theorem mem_subtree_self (n : ν) : n ∈ (t.subtree n).preOrder := by
  rw [t.subtree_eq]
  exact List.mem_cons_self

variable {t span query}

theorem EndsBelow.self {n : ν} (h : t.EndsBelow span n) : ∃ e, t.furthestEnd span n = .ok e :=
  h n (t.mem_subtree_self n)

theorem EndsBelow.left {n c : ν} (h : t.EndsBelow span n) (hc : t.left? n = some c) :
    t.EndsBelow span c := by
  intro m hm
  refine h m ?_
  rw [t.subtree_eq, hc, BinTree.preOrder]
  exact List.mem_cons_of_mem _ (List.mem_append_left _ hm)

theorem EndsBelow.right {n c : ν} (h : t.EndsBelow span n) (hc : t.right? n = some c) :
    t.EndsBelow span c := by
  intro m hm
  refine h m ?_
  rw [t.subtree_eq, hc, BinTree.preOrder]
  exact List.mem_cons_of_mem _ (List.mem_append_right _ hm)

theorem keepsLeft_eq {n : ν} {e : Pos T} (h : t.furthestEnd span n = .ok e) :
    t.keepsLeft span query n = .ok (decide (query.start ≤ e)) := by
  rw [keepsLeft, reaches, h]
  rfl

theorem keepsRight_eq {n : ν} {e : Pos T} (h : t.furthestEnd span n = .ok e) (v : α) :
    t.keepsRight span query v n =
      .ok (decide ((span v).start ≤ query.stop ∧ query.start ≤ e)) := by
  rw [keepsRight, reaches, h]
  split <;> simp [*, pure, Except.pure, bind, Except.bind]

end LinkTree

namespace Search

variable (t : LinkTree ν α) (span : α → Span T) (query : Span T)

def visits (q : Search ν σ α) : List ν :=
  let stacked := q.candidates.toStack.flatMap fun n => (t.pruned span query (some n)).preOrder
  let left n := (t.pruned span query (t.left? n)).cut fun c => granted (t.keepsLeft span query c)
  match q.phase with
  | .visit | .done _ => stacked
  | .right n v =>
    (left n).preOrder ++ (((t.pruned span query (t.right? n)).cut fun c =>
      granted (t.keepsRight span query v c)).preOrder ++ stacked)
  | .left n => (left n).preOrder ++ stacked

def outcome (test : Test σ α) (q : Search ν σ α) : Searched T σ :=
  match q.phase with
  | .done found => ⟨q.state, found.mapError .fault⟩
  | .visit | .right _ _ | .left _ => .ofNodes t test (q.visits t span query) q.state

structure HasEnds (q : Search ν σ α) : Prop where
  stacked : ∀ n ∈ q.candidates.toStack, t.EndsBelow span n
  phase : match q.phase with
    | .right n _ | .left n => t.EndsBelow span n
    | .visit | .done _ => True

/-- Stacking a child puts what is left below it before what is stacked already. -/
theorem stack_spec (keep : ν → Except Fault Bool) {child : Option ν} (q : Search ν σ α)
    (following : SearchPhase ν α)
    (hkeep : ∀ {c e}, t.furthestEnd span c = .ok e → ∃ b, keep c = .ok b)
    (hchild : ∀ c ∈ child, t.EndsBelow span c)
    (hstacked : ∀ n ∈ q.candidates.toStack, t.EndsBelow span n) :
    ∃ candidates, q.stack keep child following = ⟨candidates, q.state, following⟩ ∧
      candidates.toStack.flatMap (fun n => (t.pruned span query (some n)).preOrder) =
        ((t.pruned span query child).cut fun c => granted (keep c)).preOrder ++
          q.candidates.toStack.flatMap (fun n => (t.pruned span query (some n)).preOrder) ∧
      ∀ n ∈ candidates.toStack, t.EndsBelow span n := by
  cases child with
  | none => exact ⟨q.candidates, rfl, rfl, hstacked⟩
  | some c =>
    have hc : t.EndsBelow span c := hchild c rfl
    obtain ⟨e, he⟩ := hc.self
    obtain ⟨b, hb⟩ := hkeep he
    rw [t.pruned_some, BinTree.cut, hb]
    -- pruning cuts the child exactly where the search leaves it out
    cases b with
    | false =>
      refine ⟨q.candidates, ?_, ?_, hstacked⟩
      · simp [Search.stack, hb]
      · simp [granted, BinTree.preOrder]
    | true =>
      refine ⟨q.candidates.push c, ?_, ?_, ?_⟩
      · simp [Search.stack, hb]
      · simp [granted, t.pruned_some]
      · intro n hn
        rw [Buffer.toStack_push] at hn
        rcases List.mem_cons.mp hn with rfl | hn
        · exact hc
        · exact hstacked n hn

theorem visits_of_top {candidates : Buffer ν} (state : σ) {n : ν} {rest : List ν} {v : α}
    (hc : candidates.toStack = n :: rest) (hv : t.value n = .ok v) :
    visits t span query ⟨candidates, state, .visit⟩ =
      n :: visits t span query ⟨candidates.pop, state, .right n v⟩ := by
  simp [visits, hc, t.pruned_some, BinTree.preOrder, hv, bind, Except.bind]

/-- What a search does that visits: it has no candidate left, or cannot read the one on top, or asks
the test about its value. -/
theorem visit_cases (test : Test σ α) (q : Search ν σ α) :
    (q.candidates.toStack = [] ∧
      q.visit t test = ⟨q.candidates, q.state, .done (.ok false)⟩) ∨
    ∃ n rest, q.candidates.toStack = n :: rest ∧
      ((∃ f, t.value n = .error f ∧
        q.visit t test = ⟨q.candidates.pop, q.state, .done (.error f)⟩) ∨
      ∃ v, t.value n = .ok v ∧ q.visit t test = ⟨q.candidates.pop, (test q.state v).2,
        match (test q.state v).1 with
        | .ok false => .right n v
        | answer => .done answer⟩) := by
  have htop := q.candidates.top?_eq_head?
  cases hc : q.candidates.toStack with
  | nil =>
    rw [hc] at htop
    refine .inl ⟨rfl, ?_⟩
    simp only [visit, htop, List.head?_nil]
  | cons n rest =>
    rw [hc] at htop
    refine .inr ⟨n, rest, rfl, ?_⟩
    cases hv : t.value n with
    | error f =>
      refine .inl ⟨f, rfl, ?_⟩
      simp only [visit, htop, List.head?_cons, hv]
    | ok v =>
      refine .inr ⟨v, rfl, ?_⟩
      simp only [visit, htop, List.head?_cons, hv]
      rcases test q.state v with ⟨f | _ | _, s⟩ <;> rfl

theorem visits_cons_of_top {candidates : Buffer ν} (state : σ) {n : ν} {rest : List ν}
    (hc : candidates.toStack = n :: rest) : ∃ ns,
      visits t span query (⟨candidates, state, .visit⟩ : Search ν σ α) = n :: ns := by
  simp [visits, hc, t.pruned_some, BinTree.preOrder]

variable {t span} (test : Test σ α)

theorem outcome_visit {q : Search ν σ α} (h : q.HasEnds t span)
    (hphase : q.phase = .visit) :
    (q.visit t test).outcome t span query test = q.outcome t span query test ∧
      (q.visit t test).HasEnds t span := by
  obtain ⟨candidates, state, phase⟩ := q
  obtain ⟨hstacked, -⟩ := h
  obtain rfl : phase = .visit := hphase
  have hrest : ∀ m ∈ candidates.pop.toStack, t.EndsBelow span m := by
    intro m hm
    exact hstacked m (List.mem_of_mem_tail (Buffer.toStack_pop candidates ▸ hm))
  obtain ⟨hc, hs⟩ | ⟨n, rest, hc, ⟨f, hv, hs⟩ | ⟨v, hv, hs⟩⟩ :=
    visit_cases t test ⟨candidates, state, .visit⟩
  · rw [hs]
    refine ⟨?_, hstacked, trivial⟩
    simp [outcome, visits, hc, Searched.ofNodes, Except.mapError]
  · rw [hs]
    refine ⟨?_, hrest, trivial⟩
    obtain ⟨ns, hvisits⟩ := visits_cons_of_top t span query state hc
    simp [outcome, hvisits, Searched.ofNodes, hv, Except.mapError]
  · have hn : t.EndsBelow span n := hstacked n (hc ▸ List.mem_cons_self)
    have hvisits := visits_of_top t span query state hc hv
    rw [hs]
    simp only [outcome, hvisits, Searched.ofNodes, hv]
    rcases test state v with ⟨f | _ | _, s⟩
    · exact ⟨rfl, hrest, trivial⟩
    · exact ⟨rfl, hrest, hn⟩
    · exact ⟨rfl, hrest, trivial⟩

theorem visits_step {q : Search ν σ α} (h : q.HasEnds t span)
    (hphase : ∀ found, q.phase ≠ .done found) (hvisit : q.phase ≠ .visit) :
    ∃ candidates phase, q.step t span query test = ⟨candidates, q.state, phase⟩ ∧
      (∀ found, phase ≠ .done found) ∧
      visits t span query (⟨candidates, q.state, phase⟩ : Search ν σ α) = q.visits t span query ∧
      (⟨candidates, q.state, phase⟩ : Search ν σ α).HasEnds t span := by
  obtain ⟨candidates, state, phase⟩ := q
  obtain ⟨hstacked, hends⟩ := h
  cases phase with
  | visit => exact absurd rfl hvisit
  | right n v =>
    obtain ⟨candidates', hs, hvisits, hstacked'⟩ := stack_spec t span query
      (t.keepsRight span query v) ⟨candidates, state, .right n v⟩ (.left n)
      (fun he => ⟨_, LinkTree.keepsRight_eq he v⟩) (fun c hc => hends.right hc) hstacked
    refine ⟨candidates', .left n, hs, by simp, ?_, hstacked', hends⟩
    simp only [visits, hvisits]
  | left n =>
    obtain ⟨candidates', hs, hvisits, hstacked'⟩ := stack_spec t span query
      (t.keepsLeft span query) ⟨candidates, state, .left n⟩ .visit
      (fun he => ⟨_, LinkTree.keepsLeft_eq he⟩) (fun c hc => hends.left hc) hstacked
    refine ⟨candidates', .visit, hs, by simp, ?_, hstacked', trivial⟩
    simp only [visits, hvisits]
  | done found => exact absurd rfl (hphase found)

theorem outcome_of_not_done {q : Search ν σ α} (hphase : ∀ found, q.phase ≠ .done found) :
    q.outcome t span query test = .ofNodes t test (q.visits t span query) q.state := by
  rw [outcome]
  split
  · next found h => exact absurd h (hphase found)
  all_goals rfl

theorem outcome_step {q : Search ν σ α} (h : q.HasEnds t span)
    (hphase : ∀ found, q.phase ≠ .done found) :
    (q.step t span query test).outcome t span query test = q.outcome t span query test ∧
      (q.step t span query test).HasEnds t span := by
  by_cases hvisit : q.phase = .visit
  · have hstep : q.step t span query test = q.visit t test := by simp only [step, hvisit]
    rw [hstep]
    exact outcome_visit query test h hvisit
  · obtain ⟨candidates, phase, hs, hgoing, hvisits, hends⟩ := visits_step query test h hphase hvisit
    rw [hs, outcome_of_not_done query test hphase, outcome_of_not_done query test hgoing, hvisits]
    exact ⟨rfl, hends⟩

theorem run_fst {q : Search ν σ α} (h : q.HasEnds t span) :
    (q.run t span query test).1 = q.outcome t span query test := by
  fun_induction Search.run (T := T) t span query test q with
  | case1 q found hphase => simp only [outcome, hphase]
  | case2 q hphase ih | case3 q n v hphase ih | case4 q n hphase ih =>
    obtain ⟨hsame, hends⟩ := outcome_step query test h (by simp [hphase])
    rw [ih hends, hsame]

theorem hasEnds_start {root : ν} (hroot : t.EndsBelow span root) (s : σ) {b : Buffer ν}
    (hb : b.toStack = []) : (start root s b : Search ν σ α).HasEnds t span where
  stacked n hn := by
    obtain rfl : n = root := by simpa [start, hb] using hn
    exact hroot
  phase := trivial

theorem visits_start (root : ν) (s : σ) {b : Buffer ν} (hb : b.toStack = []) :
    (start root s b : Search ν σ α).visits t span query =
      (t.pruned span query (some root)).preOrder := by
  simp [visits, start, hb]

end Search

/-- A search goes through the nodes of the pruned tree in pre-order. -/
theorem LinkTree.any_fst {t : LinkTree ν α} {span : α → Span T}
    (hends : ∀ n ∈ t.unfold.preOrder, ∃ e, t.furthestEnd span n = .ok e) {start length : Pos T}
    {query : Span T} (hquery : Span.ofLength start length = .ok query) (test : Test σ α) (s : σ)
    {pool : Option (Pool ν)} (hpool : ∀ p ∈ pool, p.Clean) :
    (t.any span start length test s pool).1 =
      .ofNodes t test (t.pruned span query t.root?).preOrder s := by
  rw [LinkTree.any, hquery]
  cases hroot : t.root? with
  | none => rfl
  | some root =>
    refine LinkTree.borrow_fst hpool fun b hb => ?_
    rw [unfold, hroot] at hends
    rw [Search.run_fst query test (Search.hasEnds_start hends s hb),
      ← Search.visits_start query root s hb]
    rfl

end IntervalIndex
