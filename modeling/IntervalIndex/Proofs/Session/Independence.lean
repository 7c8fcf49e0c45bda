import IntervalIndex.Proofs.Packed.Packing
import IntervalIndex.Proofs.Scratch.ReachablePool
import IntervalIndex.Proofs.Session.Walks
import IntervalIndex.Proofs.Tree.FreshStack
import IntervalIndex.Proofs.Tree.Pruning

namespace IntervalIndex

open Scratch

variable {ν α σ : Type}

namespace Request

/-- The answer to a query that runs alone, on a fresh stack outside any pool. -/
def alone? : Request ν σ α → Option (Reply σ α)
  | .collect tree start length test firstOnly out s =>
    some (.collected (tree.collect start length test firstOnly out s none).1)
  | .any tree span start length test s =>
    some (.searched (tree.any span start length test s none).1)
  | .openWalk _ _ | .advance _ _ | .closeWalk _ | .configure _ => none

def asked (pool : Option (Pool ν)) : Request ν σ α → List α
  | .collect tree start length test firstOnly out s =>
    (tree.collect start length test.recording firstOnly out (s, []) pool).1.state.2.reverse
  | .any tree span start length test s =>
    (tree.any span start length test.recording (s, []) pool).1.state.2.reverse
  | .openWalk _ _ | .advance _ _ | .closeWalk _ | .configure _ => []

def ends (name : String) : Request ν σ α → Bool
  | .openWalk n _ | .closeWalk n => n == name
  | .advance _ _ | .collect .. | .any .. | .configure _ => false

def visits (name : String) : Request ν σ α → Nat
  | .advance n visits => if n = name then visits else 0
  | .openWalk _ _ | .closeWalk _ | .collect .. | .any .. | .configure _ => 0

/-- What the walk of a name answers to this request. -/
def answer (name : String) : Request ν σ α → Reply σ α → Except Fault (List (Option α))
  | .advance n _, .visited values => if n = name then values else .ok []
  | _, _ => .ok []

def totalVisits (name : String) : List (Request ν σ α) → Nat
  | [] => 0
  | r :: rs => if r.ends name then 0 else r.visits name + totalVisits name rs

def answers (name : String) :
    List (Request ν σ α) → List (Reply σ α) → Except Fault (List (Option α))
  | r :: rs, reply :: replies =>
    if r.ends name then .ok []
    else do return (← r.answer name reply) ++ (← answers name rs replies)
  | _, _ => .ok []

theorem asked_eq_alone (r : Request ν σ α) {p : Pool ν} (hp : p.Clean) :
    r.asked (some p) = r.asked none := by
  cases r with
  | collect tree start length test firstOnly out s =>
    simp only [asked, tree.collect_eq_alone start length _ _ _ _ hp.of_mem_some]
  | any tree span start length test s =>
    simp only [asked, tree.any_eq_alone start length _ _ _ hp.of_mem_some]
  | openWalk name tree | advance name visits | closeWalk name | configure limits => rfl

end Request

namespace Walk

variable {t : LinkTree ν α} {w : Walk ν} {vs : List α}

theorem nextValue_spec (hvs : (w.remaining t).mapM t.value = .ok vs) :
    (w.nextValue t).1 = .ok vs.head? ∧
      ((w.nextValue t).2.remaining t).mapM t.value = .ok vs.tail := by
  have hrest := w.remaining_next t
  rcases hnext : w.next t with ⟨visited, w'⟩
  rw [hnext] at hrest
  simp only [nextValue, hnext]
  cases visited with
  | none =>
    rw [remaining_of_next_none hnext] at hvs hrest
    obtain rfl : [] = vs := Except.ok.inj hvs
    exact ⟨rfl, by rw [hrest]; rfl⟩
  | some n =>
    rw [remaining_of_next_some hnext, mapM_eq_ok_iff, List.forall₂_cons_left_iff] at hvs
    obtain ⟨v, rest, hv, hrest, rfl⟩ := hvs
    refine ⟨?_, mapM_eq_ok_iff.mpr hrest⟩
    simp only [hv]
    rfl

theorem visit_spec (hvs : (w.remaining t).mapM t.value = .ok vs) (visits : Nat) :
    (Session.visit t visits w).1 = .ok ((List.range visits).map (vs[·]?)) ∧
      ((Session.visit t visits w).2.remaining t).mapM t.value = .ok (vs.drop visits) := by
  induction visits generalizing w vs with
  | zero => exact ⟨rfl, hvs⟩
  | succ visits ih =>
    obtain ⟨hfirst, hrest⟩ := nextValue_spec hvs
    obtain ⟨hvalues, hremaining⟩ := ih hrest
    rcases hnext : w.nextValue t with ⟨v, w'⟩
    rw [hnext] at hfirst hvalues hremaining
    simp only at hfirst
    simp only [Session.visit, hnext, hfirst, hvalues]
    constructor
    · rw [List.range_succ_eq_map]
      cases vs <;> simp [Except.map, Function.comp_def]
    · rw [hremaining, ← List.drop_one, List.drop_drop, Nat.add_comm]

end Walk

namespace Session

theorem step_eq_alone {s : Session ν α} (hs : s.pool.Clean) (r : Request ν σ α) :
    ∀ alone ∈ r.alone?, (s.step r).1 = alone := by
  cases r with
  | collect tree start length test firstOnly out state =>
    rintro _ ⟨⟩
    simp only [step, tree.collect_eq_alone start length test state firstOnly out hs.of_mem_some]
  | any tree span start length test state =>
    rintro _ ⟨⟩
    simp only [step, tree.any_eq_alone start length test state span hs.of_mem_some]
  | openWalk name tree | advance name visits | closeWalk name | configure limits =>
    intro alone halone
    cases halone

/-- A walk of a tree, which has these values still to come. -/
def Walks (s : Session ν α) (name : String) (tree : LinkTree ν α) (vs : List α) : Prop :=
  ∃ w, s.walk? name = some ⟨tree, w⟩ ∧ (w.remaining tree).mapM tree.value = .ok vs

theorem openWalk_walks {s : Session ν α} (hs : s.pool.Clean) (name : String)
    {tree : LinkTree ν α} {vs : List α} (hvs : tree.values = .ok vs) :
    (s.openWalk name tree).Walks name tree vs := by
  refine ⟨_, s.walk?_openWalk name tree, ?_⟩
  rw [Walk.remaining_start tree _ hs.acquire.1]
  exact hvs

variable {s : Session ν α} {name : String} {tree : LinkTree ν α} {vs : List α}

/-- A request that does not end a walk advances it by its visits, and by none if it is about
something else. -/
theorem step_walks (h : s.Walks name tree vs) {r : Request ν σ α} (hr : r.ends name = false) :
    r.answer name (s.step r).1 = .ok ((List.range (r.visits name)).map (vs[·]?)) ∧
      (s.step r).2.Walks name tree (vs.drop (r.visits name)) := by
  obtain ⟨w, hw, hvs⟩ := h
  cases r with
  | openWalk other tree' =>
    have hne : name ≠ other := fun he => beq_eq_false_iff_ne.mp hr he.symm
    exact ⟨rfl, w, (s.walk?_openWalk_of_ne hne tree').trans hw, hvs⟩
  | closeWalk other =>
    have hne : name ≠ other := fun he => beq_eq_false_iff_ne.mp hr he.symm
    exact ⟨rfl, w, (s.walk?_close_of_ne hne).trans hw, hvs⟩
  | advance other visits =>
    have hwalk := s.walk?_advance name other visits
    rw [hw, Option.map_some] at hwalk
    by_cases hname : other = name
    · subst hname
      obtain ⟨hvalues, hrest⟩ := Walk.visit_spec hvs visits
      rw [if_pos rfl] at hwalk
      simp only [Request.answer, Request.visits, step, if_true, advance_fst hw]
      exact ⟨hvalues, _, hwalk, hrest⟩
    · rw [if_neg (Ne.symm hname)] at hwalk
      simp only [Request.answer, Request.visits, step, if_neg hname]
      exact ⟨rfl, w, hwalk, hvs⟩
  | collect tree' start length test firstOnly out state
  | any tree' span start length test state
  | configure limits => exact ⟨rfl, w, hw, hvs⟩

theorem run_walks (h : s.Walks name tree vs) (rest : List (Request ν σ α)) :
    Request.answers name rest (s.run rest).1 =
      .ok ((List.range (Request.totalVisits name rest)).map (vs[·]?)) := by
  induction rest generalizing s vs with
  | nil => rfl
  | cons r rest ih =>
    simp only [run, Request.answers, Request.totalVisits]
    cases hr : r.ends name with
    | true => rfl
    | false =>
      -- the step takes its visits off the front, and the rest of the run goes on from there
      obtain ⟨hanswer, hwalks⟩ := step_walks h hr
      simp only [Bool.false_eq_true, if_false, hanswer, ih hwalks, bind, Except.bind, pure,
        Except.pure]
      simp [List.range_add, Function.comp_def]

end Session

theorem map_getElem?_range (vs : List α) (count : Nat) : (List.range count).map (vs[·]?) =
    (vs.take count).map some ++ List.replicate (count - vs.length) none := by
  induction count generalizing vs with
  | zero => simp
  | succ count ih =>
    rw [List.range_succ_eq_map, List.map_cons, List.map_map]
    cases vs with
    | nil => simp [Function.comp_def, List.replicate_succ]
    | cons v vs => simpa [Function.comp_def] using ih vs

/-- After any requests to trees that share a pool, a query is answered as if it ran alone on a stack of
its own, and asks its test about the same values. A walk that is opened then gives the values of its
tree from the first one on, and nothing after the last one, whatever is requested in between. -/
theorem Session.answered_as_alone {pool : Pool ν} (hpool : pool.Reachable)
    (before : List (Request ν σ α)) :
    let s := ((start pool).run before).2
    (∀ r : Request ν σ α, (∀ alone ∈ r.alone?, (s.step r).1 = alone) ∧
      r.asked (some s.pool) = r.asked none) ∧
    (∀ (name : String) (tree : LinkTree ν α) (vs : List α), tree.values = .ok vs →
      ∀ rest : List (Request ν σ α),
        let visits := Request.totalVisits name rest
        Request.answers name rest ((s.openWalk name tree).run rest).1 =
          .ok ((vs.take visits).map some ++ List.replicate (visits - vs.length) none)) ∧
    ∀ {T : PosType} (t : PackedTree T α), ∃ vs, t.toLinkTree.values = .ok vs := by
  intro s
  have hclean : s.pool.Clean := (run_reachable hpool before).bounded.clean
  refine ⟨fun r => ⟨step_eq_alone hclean r, r.asked_eq_alone hclean⟩, ?_,
    fun t => t.exists_values⟩
  intro name tree vs hvs rest visits
  rw [← map_getElem?_range]
  exact run_walks (openWalk_walks hclean name hvs) rest

/-- Two walks and a query take turns, and in the end nothing is kept. -/
theorem Session.answered_as_alone_in_turns :
    let tree := LinkTree.lopsided.toLinkTree
    let pool : Pool NodeTable.Stage := .new
    let query : Request NodeTable.Stage Unit (Span .i64) :=
      .collect tree (.clamp 1) (.clamp 3 : Pos .i64) (.ofPure fun _ => true) true #[] ()
    let before := [.openWalk "one" tree, .advance "one" 2, query]
    let rest := [.advance "two" 1, .closeWalk "one", query, .configure ⟨0, 0⟩, .advance "two" 4]
    let s := ((start pool).run before).2
    query.asked (some s.pool) = query.asked none ∧
      Request.answers "two" rest ((s.openWalk "two" tree).run rest).1 =
        .ok (LinkTree.lopsidedSpans.map some ++ [none, none]) := by
  intro tree pool query before rest s
  have hpool : pool.Reachable := .start default
  obtain ⟨hqueries, hwalks, -⟩ := answered_as_alone hpool before
  refine ⟨(hqueries query).2, ?_⟩
  have hvisits : Request.totalVisits "two" rest = 5 := by
    simp [rest, query, Request.totalVisits, Request.ends, Request.visits]
  have hanswers := hwalks "two" tree LinkTree.lopsidedSpans LinkTree.lopsided_values rest
  simp only [hvisits] at hanswers
  exact hanswers

end IntervalIndex
