import IntervalIndex.Proofs.Session.Independence

namespace IntervalIndex

open Scratch

variable {ν σ α τ β : Type} {T : PosType}

def LinkTree.mapValues (g : α → β) (t : LinkTree ν α) : LinkTree ν β where
  root? := t.root?
  left? := t.left?
  right? := t.right?
  value n := (t.value n).map g
  furthest := t.furthest
  links_end := t.links_end

/-- A second test answers as the first one where values and states come from its own. -/
def Test.Along (test : Test σ α) (test' : Test τ β) (f : σ → τ) (g : α → β) : Prop :=
  ∀ s v, test' (f s) (g v) = ((test s v).1, f (test s v).2)

def Collected.along (f : σ → τ) (g : α → β) (c : Collected T σ α) : Collected T τ β :=
  ⟨c.out.map g, f c.state, c.count⟩

def Searched.along (f : σ → τ) (r : Searched T σ) : Searched T τ := ⟨f r.state, r.found⟩

section Along

variable {f : σ → τ} {g : α → β} {test : Test σ α} {test' : Test τ β}

theorem Test.Along.recording (h : test.Along test' f g) :
    test.recording.Along test'.recording (Prod.map f (List.map g)) g := by
  rintro ⟨s, seen⟩ v
  simp only [Test.recording, Prod.map_apply, h s v, List.map_cons]

namespace LinkTree

theorem below_mapValues (g : α → β) (t : LinkTree ν α) (o : Option ν) :
    (t.mapValues g).below o = t.below o := by
  induction o using t.below_induction with
  | none => rfl
  | some n ihl ihr =>
    rw [below_some, below_some, ← ihl, ← ihr]
    rfl

theorem unfold_mapValues (g : α → β) (t : LinkTree ν α) : (t.mapValues g).unfold = t.unfold :=
  t.below_mapValues g t.root?

theorem values_mapValues {t : LinkTree ν α} {vs : List α} (hvs : t.values = .ok vs) (g : α → β) :
    (t.mapValues g).values = .ok (vs.map g) := by
  rw [values, mapM_eq_ok_iff] at hvs ⊢
  rw [unfold_mapValues, List.forall₂_map_right_iff]
  refine hvs.imp fun n v hv => ?_
  simp only [mapValues, hv]
  rfl

end LinkTree

theorem Collected.ofNodes_mapValues (h : test.Along test' f g) (t : LinkTree ν α) (firstOnly : Bool)
    (ns : List ν) (out : Array α) (s : σ) (count : Nat) :
    (Collected.ofNodes (t.mapValues g) test' firstOnly ns (out.map g) (f s) count : Collected T τ β) =
      (Collected.ofNodes t test firstOnly ns out s count).along f g := by
  induction ns generalizing out s count with
  | nil => rfl
  | cons n ns ih =>
    simp only [Collected.ofNodes, LinkTree.mapValues]
    cases hv : t.value n with
    | error why => rfl
    | ok v =>
      simp only [Except.map, h s v]
      rcases test s v with ⟨why | accepted, s'⟩
      · rfl
      · cases accepted with
        | false => exact ih out s' count
        | true =>
          simp only
          cases firstOnly with
          | true => simp [Collected.along]
          | false =>
            have hpush := ih (out.push v) s' (count + 1)
            rw [Array.map_push] at hpush
            exact hpush

theorem LinkTree.collect_mapValues (h : test.Along test' f g) (t : LinkTree ν α) (start length : Pos T)
    (firstOnly : Bool) (out : Array α) (s : σ) :
    ((t.mapValues g).collect start length test' firstOnly (out.map g) (f s) none).1 =
      ((t.collect start length test firstOnly out s none).1).along f g := by
  rw [collect, collect]
  cases Span.ofLength start length with
  | error why => rfl
  | ok query =>
    change ((t.mapValues g).scan test' firstOnly (.start _ .fresh) (out.map g) (f s) 0).1 =
      ((t.scan test firstOnly (.start t .fresh) out s 0).1).along f g
    rw [scan_eq_ofNodes, scan_eq_ofNodes, Walk.remaining_start _ _ Buffer.toStack_fresh,
      Walk.remaining_start _ _ Buffer.toStack_fresh, unfold_mapValues]
    exact Collected.ofNodes_mapValues h t firstOnly _ out s 0

def SearchPhase.along (g : α → β) : SearchPhase ν α → SearchPhase ν β
  | .visit => .visit
  | .right n v => .right n (g v)
  | .left n => .left n
  | .done found => .done found

namespace Search

def along (f : σ → τ) (g : α → β) (q : Search ν σ α) : Search ν τ β :=
  ⟨q.candidates, f q.state, q.phase.along g⟩

variable {t : LinkTree ν α} {span : α → Span T} {span' : β → Span T}

theorem stack_along (keep : ν → Except Fault Bool) (child : Option ν) (q : Search ν σ α)
    (following : SearchPhase ν α) : (q.along f g).stack keep child (following.along g) =
      (q.stack keep child following).along f g := by
  cases child with
  | none => rfl
  | some c =>
    simp only [stack]
    split <;> rfl

theorem visit_along (h : test.Along test' f g) (q : Search ν σ α) :
    (q.along f g).visit (t.mapValues g) test' = (q.visit t test).along f g := by
  simp only [visit, along]
  split
  · rfl
  · next n hn =>
    simp only [LinkTree.mapValues]
    cases t.value n with
    | error why => rfl
    | ok v =>
      simp only [Except.map, h q.state v]
      rcases test q.state v with ⟨why | accepted, s'⟩
      · rfl
      · cases accepted <;> rfl

theorem reaches_mapValues (hspan : ∀ v, span' (g v) = span v) (query : Span T) (n : ν) :
    (t.mapValues g).reaches span' query n = t.reaches span query n := by
  have hend : (t.mapValues g).furthestEnd span' n = t.furthestEnd span n := by
    simp only [LinkTree.furthestEnd, LinkTree.mapValues]
    cases t.furthest n with
    | error why => rfl
    | ok m =>
      simp only [bind, Except.bind]
      cases t.value m with
      | error why => rfl
      | ok v => exact congrArg (fun span : Span T => (.ok span.stop : Except Fault (Pos T))) (hspan v)
  rw [LinkTree.reaches, LinkTree.reaches, hend]

theorem step_along (h : test.Along test' f g) (hspan : ∀ v, span' (g v) = span v) (query : Span T)
    (q : Search ν σ α) : (q.along f g).step (t.mapValues g) span' query test' =
      (q.step t span query test).along f g := by
  have hreaches : (t.mapValues g).reaches span' query = t.reaches span query :=
    funext (reaches_mapValues hspan query)
  obtain ⟨candidates, state, phase⟩ := q
  cases phase with
  | visit => exact visit_along h _
  | right n v =>
    have hkeep : (t.mapValues g).keepsRight span' query (g v) = t.keepsRight span query v := by
      funext c
      rw [LinkTree.keepsRight, LinkTree.keepsRight, hspan, hreaches]
    have hstack := stack_along (t.keepsRight span query v) (t.right? n)
      ⟨candidates, state, .right n v⟩ (.left n) (f := f) (g := g)
    rw [← hkeep] at hstack
    exact hstack.trans (by rw [hkeep]; rfl)
  | left n =>
    have hkeep : (t.mapValues g).keepsLeft span' query = t.keepsLeft span query := hreaches
    have hstack := stack_along (t.keepsLeft span query) (t.left? n) ⟨candidates, state, .left n⟩
      .visit (f := f) (g := g)
    rw [← hkeep] at hstack
    exact hstack.trans (by rw [hkeep]; rfl)
  | done found => rfl

theorem run_along (h : test.Along test' f g) (hspan : ∀ v, span' (g v) = span v) (query : Span T)
    (q : Search ν σ α) : ((q.along f g).run (t.mapValues g) span' query test').1 =
      (q.run t span query test).1.along f := by
  -- both searches are in the same phase at every step, so they end together
  fun_induction Search.run (T := T) t span query test q with
  | case1 q found hphase =>
    have hdone : (q.along f g).phase = .done found := by rw [along, hphase]; rfl
    rw [run_of_done _ _ _ _ hdone]
    rfl
  | case2 q hphase ih | case3 q n v hphase ih | case4 q n hphase ih =>
    have hgoing : ∀ found, (q.along f g).phase ≠ .done found := by
      simp [along, hphase, SearchPhase.along]
    rw [run_of_not_done _ _ _ _ hgoing, step_along h hspan, ih]

end Search

theorem LinkTree.any_mapValues (h : test.Along test' f g) {span : α → Span T} {span' : β → Span T}
    (hspan : ∀ v, span' (g v) = span v) (t : LinkTree ν α) (start length : Pos T) (s : σ) :
    ((t.mapValues g).any span' start length test' (f s) none).1 =
      ((t.any span start length test s none).1).along f := by
  rw [any, any]
  cases Span.ofLength start length with
  | error why => rfl
  | ok query =>
    simp only [show (t.mapValues g).root? = t.root? from rfl]
    cases t.root? with
    | none => rfl
    | some root => exact Search.run_along h hspan query (Search.start root s .fresh)

end Along

/-- Where the values and the test states of one tree stand among those of all trees of a run. -/
structure Place (σ α τ β : Type) where
  state : σ → τ
  value : α → β
  state? : τ → Option σ
  value? : β → Option α
  state?_state : ∀ s, state? (state s) = some s
  value?_value : ∀ v, value? (value v) = some v

namespace Place

/-- Any family of types has a place for each of them. -/
def sigma {ι : Type} [DecidableEq ι] (σ α : ι → Type) (i : ι) :
    Place (σ i) (α i) ((i : ι) × σ i) ((i : ι) × α i) where
  state s := ⟨i, s⟩
  value v := ⟨i, v⟩
  state? s := if h : s.1 = i then some (h ▸ s.2) else none
  value? v := if h : v.1 = i then some (h ▸ v.2) else none
  state?_state _ := dif_pos rfl
  value?_value _ := dif_pos rfl

variable (p : Place σ α τ β)

def test (test : Test σ α) : Test τ β := fun s v =>
  match p.state? s, p.value? v with
  | some s', some v' => ((test s' v').1, p.state (test s' v').2)
  | _, _ => (.ok false, s)

theorem test_along (test : Test σ α) : test.Along (p.test test) p.state p.value := by
  intro s v
  simp only [Place.test, p.state?_state, p.value?_value]

def span (span : α → Span T) (v : β) : Span T := (p.value? v).elim ⟨.zero, .zero⟩ span

theorem span_value (span : α → Span T) (v : α) : p.span span (p.value v) = span v := by
  rw [Place.span, p.value?_value, Option.elim_some]

def request : Request ν σ α → Request ν τ β
  | .openWalk name tree => .openWalk name (tree.mapValues p.value)
  | .advance name visits => .advance name visits
  | .closeWalk name => .closeWalk name
  | .collect tree start length test firstOnly out s =>
    .collect (tree.mapValues p.value) start length (p.test test) firstOnly (out.map p.value)
      (p.state s)
  | .any tree span start length test s =>
    .any (tree.mapValues p.value) (p.span span) start length (p.test test) (p.state s)
  | .configure limits => .configure limits

def reply : Reply σ α → Reply τ β
  | .done => .done
  | .visited values => .visited (values.map (List.map (Option.map p.value)))
  | .collected result => .collected (result.along p.state p.value)
  | .searched result => .searched (result.along p.state)

theorem alone?_request (r : Request ν σ α) : (p.request r).alone? = r.alone?.map p.reply := by
  cases r with
  | collect tree start length test firstOnly out s =>
    simp only [request, Request.alone?,
      tree.collect_mapValues (p.test_along test) start length firstOnly out s]
    rfl
  | any tree span start length test s =>
    simp only [request, Request.alone?,
      tree.any_mapValues (p.test_along test) (p.span_value span) start length s]
    rfl
  | openWalk | advance | closeWalk | configure => rfl

theorem asked_request (r : Request ν σ α) :
    (p.request r).asked none = (r.asked none).map p.value := by
  cases r with
  | collect tree start length test firstOnly out s =>
    have hrecorded := tree.collect_mapValues (p.test_along test).recording start length firstOnly out
      (s, [])
    simp only [request, Request.asked]
    rw [show (p.state s, ([] : List β)) = Prod.map p.state (List.map p.value) (s, []) from rfl,
      hrecorded]
    exact List.map_reverse.symm
  | any tree span start length test s =>
    have hrecorded := tree.any_mapValues (p.test_along test).recording (p.span_value span) start length
      (s, [])
    simp only [request, Request.asked]
    rw [show (p.state s, ([] : List β)) = Prod.map p.state (List.map p.value) (s, []) from rfl,
      hrecorded]
    exact List.map_reverse.symm
  | openWalk | advance | closeWalk | configure => rfl

end Place

/-- Trees that share a pool need not share the type of their values or of the states of their tests. In a
run over a family of types each is answered as if it were alone. -/
theorem Session.answered_in_place {ι : Type} [DecidableEq ι] {σ α : ι → Type} {pool : Pool ν}
    (hpool : pool.Reachable) (before : List (Request ν ((i : ι) × σ i) ((i : ι) × α i))) (i : ι) :
    let s := ((start pool).run before).2
    let p := Place.sigma σ α i
    (∀ r : Request ν (σ i) (α i), (∀ alone ∈ r.alone?, (s.step (p.request r)).1 = p.reply alone) ∧
      (p.request r).asked (some s.pool) = (r.asked none).map p.value) ∧
    ∀ (name : String) (tree : LinkTree ν (α i)) (vs : List (α i)), tree.values = .ok vs →
      ∀ rest : List (Request ν ((i : ι) × σ i) ((i : ι) × α i)),
        Request.answers name rest ((s.openWalk name (tree.mapValues p.value)).run rest).1 =
          .ok ((List.range (Request.totalVisits name rest)).map ((vs.map p.value)[·]?)) := by
  intro s p
  have hclean : s.pool.Clean := (run_reachable hpool before).bounded.clean
  refine ⟨fun r => ⟨fun alone halone => ?_, ?_⟩, fun name tree vs hvs rest => ?_⟩
  · refine step_eq_alone hclean (p.request r) _ ?_
    rw [p.alone?_request]
    exact Option.mem_map_of_mem p.reply halone
  · rw [(p.request r).asked_eq_alone hclean, p.asked_request]
  · exact run_walks (openWalk_walks hclean name (LinkTree.values_mapValues hvs p.value)) rest

end IntervalIndex
