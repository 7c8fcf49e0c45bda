import IntervalIndex.Proofs.QueryBounds
import IntervalIndex.Proofs.Tree.PrunedSearch
import IntervalIndex.Tree.NodeTable

namespace IntervalIndex

open Scratch

variable {ν α : Type} {T : PosType}

theorem Searched.found_ofPure {t : LinkTree ν α} (p : α → Bool) {ns : List ν}
    (h : ∀ n ∈ ns, ∃ v, t.value n = .ok v) :
    (Searched.ofNodes (T := T) t (.ofPure p) ns ()).found =
      .ok (ns.any fun n => granted ((t.value n).map p)) := by
  induction ns with
  | nil => rfl
  | cons n ns ih =>
    obtain ⟨v, hv⟩ := h n (by simp)
    have hrest := ih fun m hm => h m (List.mem_cons_of_mem n hm)
    cases hp : p v with
    | true => simp [Searched.ofNodes, Test.ofPure, hv, hp, Except.map, granted]
    | false =>
      simp only [Searched.ofNodes, Test.ofPure, hv, hp, hrest]
      simp [hv, hp, Except.map, granted]

namespace LinkTree

variable {t : LinkTree ν α} {span : α → Span T}

theorem any_of_values {ns : List ν} {vs : List α} (hvs : ns.mapM t.value = .ok vs)
    (p : α → Bool) : (ns.any fun n => granted ((t.value n).map p)) = vs.any p := by
  rw [mapM_eq_ok_iff] at hvs
  induction hvs with
  | nil => rfl
  | cons hv _ ih =>
    rw [List.any_cons, List.any_cons, ih, hv]
    rfl

def StartsBefore (t : LinkTree ν α) (span : α → Span T) (n m : ν) : Prop :=
  ∀ v w, t.value n = .ok v → t.value m = .ok w → (span v).start ≤ (span w).start

/-- The end reported for a node is at least that of each value below it. -/
def EndBounds (t : LinkTree ν α) (span : α → Span T) (n : ν) : Prop :=
  ∃ e, t.furthestEnd span n = .ok e ∧
    ∀ m ∈ (t.subtree n).inOrder, ∀ v, t.value m = .ok v → (span v).stop ≤ e

theorem keepsLeft_of_mem {query : Span T} {c m : ν} {v : α} (hc : t.EndBounds span c)
    (hm : m ∈ (t.subtree c).preOrder) (hv : t.value m = .ok v)
    (hstop : query.start ≤ (span v).stop) : granted (t.keepsLeft span query c) = true := by
  obtain ⟨e, he, hbound⟩ := hc
  have hle := hbound m (BinTree.mem_preOrder_iff.mp hm) v hv
  rw [keepsLeft_eq he]
  exact decide_eq_true (Int.le_trans hstop hle)

theorem keepsRight_of_mem {query : Span T} {c m : ν} {u v : α} (hc : t.EndBounds span c)
    (hm : m ∈ (t.subtree c).preOrder) (hv : t.value m = .ok v)
    (hstop : query.start ≤ (span v).stop) (hstart : (span u).start ≤ query.stop) :
    granted (t.keepsRight span query u c) = true := by
  obtain ⟨e, he, hbound⟩ := hc
  have hle := hbound m (BinTree.mem_preOrder_iff.mp hm) v hv
  rw [keepsRight_eq he]
  exact decide_eq_true ⟨hstart, Int.le_trans hstop hle⟩

theorem mem_cut_pruned {query : Span T} {o : Option ν} {m : ν} {keep : ν → Bool}
    (hm : m ∈ (t.pruned span query o).preOrder) (hkeep : ∀ c ∈ o, keep c = true) :
    m ∈ ((t.pruned span query o).cut keep).preOrder := by
  cases o with
  | none => exact hm
  | some c =>
    rw [pruned_some] at hm ⊢
    rw [BinTree.cut, if_pos (hkeep c rfl)]
    exact hm

/-- Pruning leaves every node whose value lies within the bounds of the query. -/
theorem mem_pruned {query : Span T} (o : Option ν)
    (hsorted : (t.below o).inOrder.Pairwise (t.StartsBefore span))
    (hends : ∀ n ∈ (t.below o).inOrder, t.EndBounds span n)
    (hread : ∀ n ∈ (t.below o).inOrder, ∃ v, t.value n = .ok v) {m : ν}
    (hm : m ∈ (t.below o).preOrder) {v : α} (hv : t.value m = .ok v)
    (hstart : (span v).start ≤ query.stop) (hstop : query.start ≤ (span v).stop) :
    m ∈ (t.pruned span query o).preOrder := by
  induction o using t.below_induction with
  | none => exact hm
  | some n ihl ihr =>
    simp only [below_some, BinTree.inOrder, BinTree.preOrder, List.mem_cons, List.mem_append,
      List.pairwise_append, List.pairwise_cons] at hsorted hends hread hm
    obtain ⟨hsl, ⟨hsn, hsr⟩, -⟩ := hsorted
    rw [pruned_some]
    rcases hm with rfl | hm | hm
    · exact List.mem_cons_self
    · have hml := ihl hsl (fun k hk => hends k (.inl hk)) (fun k hk => hread k (.inl hk)) hm
      refine List.mem_cons_of_mem _ (List.mem_append_left _ (mem_cut_pruned hml ?_))
      intro c hc
      have hb : t.below (t.left? n) = t.subtree c := by rw [hc]; rfl
      rw [hb] at hm hends
      exact keepsLeft_of_mem (hends c (.inl (BinTree.mem_preOrder_iff.mp (t.mem_subtree_self c))))
        hm hv hstop
    · have hmr := ihr hsr (fun k hk => hends k (.inr (.inr hk)))
        (fun k hk => hread k (.inr (.inr hk))) hm
      refine List.mem_cons_of_mem _ (List.mem_append_right _ (mem_cut_pruned hmr ?_))
      intro c hc
      have hb : t.below (t.right? n) = t.subtree c := by rw [hc]; rfl
      -- the parent starts no later than the value, so not past the query either
      obtain ⟨u, hu⟩ := hread n (.inr (.inl rfl))
      have hun := hsn m (BinTree.mem_preOrder_iff.mp hm) u v hu hv
      rw [hb] at hm hends
      rw [hu]
      exact keepsRight_of_mem
        (hends c (.inr (.inr (BinTree.mem_preOrder_iff.mp (t.mem_subtree_self c))))) hm hv hstop
        (Int.le_trans hun hstart)

/-- On a tree in order of starts whose reported ends are bounds, a search for a predicate that stays
within the query finds out whether any value passes. -/
theorem any_eq_any {values : List α} (hvalues : t.values = .ok values)
    (hsorted : values.Pairwise fun v w => (span v).start ≤ (span w).start)
    (hends : ∀ n ∈ t.unfold.inOrder, t.EndBounds span n) {start length : Pos T} {query : Span T}
    (hquery : Span.ofLength start length = .ok query) {p : α → Bool}
    (hp : ∀ v, p v = true → (span v).start ≤ query.stop ∧ query.start ≤ (span v).stop)
    {pool : Option (Pool ν)} (hpool : ∀ q ∈ pool, q.Clean) :
    (t.any span start length (.ofPure p) () pool).1.found = .ok (values.any p) := by
  have hread : ∀ n ∈ t.unfold.inOrder, ∃ v, t.value n = .ok v := by
    intro n hn
    obtain ⟨v, _, hv⟩ := mem_of_mapM hvalues hn
    exact ⟨v, hv⟩
  have hreported : ∀ n ∈ t.unfold.preOrder, ∃ e, t.furthestEnd span n = .ok e := by
    intro n hn
    obtain ⟨e, he, _⟩ := hends n (BinTree.mem_preOrder_iff.mp hn)
    exact ⟨e, he⟩
  have hsub : ∀ n ∈ (t.pruned span query t.root?).preOrder, n ∈ t.unfold.inOrder :=
    fun n hn => BinTree.mem_preOrder_iff.mp ((BinTree.preOrder_prune_sublist _ _ _).subset hn)
  rw [any_fst hreported hquery _ _ hpool, Searched.found_ofPure p fun n hn => hread n (hsub n hn),
    ← any_of_values hvalues p]
  congr 1
  rw [Bool.eq_iff_iff, List.any_eq_true, List.any_eq_true]
  constructor
  · rintro ⟨n, hn, hpn⟩
    exact ⟨n, hsub n hn, hpn⟩
  · rintro ⟨n, hn, hpn⟩
    obtain ⟨v, hv⟩ := hread n hn
    have hpv : p v = true := by simpa [hv, Except.map, granted] using hpn
    obtain ⟨hstart, hstop⟩ := hp v hpv
    exact ⟨n, mem_pruned t.root? (pairwise_of_mapM hvalues hsorted) hends hread
      (BinTree.mem_preOrder_iff.mpr hn) hv hstart hstop, hpn⟩

/-- A search for a predicate that stays within the query and a scan of the whole tree agree on
whether any value passes. -/
theorem any_agrees_with_collect {values : List α} (hvalues : t.values = .ok values)
    (hsorted : values.Pairwise fun v w => (span v).start ≤ (span w).start)
    (hends : ∀ n ∈ t.unfold.inOrder, t.EndBounds span n) {start length : Pos T} {query : Span T}
    (hquery : Span.ofLength start length = .ok query) {p : α → Bool}
    (hp : ∀ v, p v = true → (span v).start ≤ query.stop ∧ query.start ≤ (span v).stop)
    (firstOnly : Bool) (out : Array α) {pool : Option (Pool ν)} (hpool : ∀ q ∈ pool, q.Clean) :
    ∃ found count, (t.any span start length (.ofPure p) () pool).1.found = .ok found ∧
      (t.collect start length (.ofPure p) firstOnly out () pool).1.count = .ok count ∧
      (found = true ↔ ∃ v ∈ values, p v = true) ∧ (found = true ↔ count ≠ 0) := by
  refine ⟨_, (accepted p firstOnly values).length,
    any_eq_any hvalues hsorted hends hquery hp hpool, ?_, List.any_eq_true, ?_⟩
  · rw [collect_fst hvalues hquery _ _ _ _ hpool, Collected.ofValues_ofPure, Nat.zero_add]
  · cases firstOnly <;> simp [accepted]

def lopsided : NodeTable (Span .i64) where
  nodes := #[⟨.clamp 0 5, none, some 1, 1⟩, ⟨.clamp 4 7, some 2, none, 1⟩,
    ⟨.clamp 2 3, none, none, 1⟩]
  root? := some 0

theorem lopsided_unfold : lopsided.toLinkTree.unfold =
    .node .leaf (0, 3) (.node (.node .leaf (2, 1) .leaf) (1, 2) .leaf) := by
  simp [unfold, below_some, lopsided, NodeTable.toLinkTree, NodeTable.child?]

theorem lopsided_inOrder : lopsided.toLinkTree.unfold.inOrder = [(0, 3), (2, 1), (1, 2)] := by
  rw [lopsided_unfold]
  rfl

def lopsidedSpans : List (Span .i64) := [.clamp 0 5, .clamp 2 3, .clamp 4 7]

theorem lopsided_values : lopsided.toLinkTree.values = .ok lopsidedSpans := by
  rw [values, lopsided_inOrder]
  rfl

theorem lopsided_endBounds {n : NodeTable.Stage} (hn : n ∈ lopsided.toLinkTree.unfold.inOrder) :
    lopsided.toLinkTree.EndBounds id n := by
  have hle : ∀ entry ∈ lopsided.nodes, entry.value.stop.val ≤ 7 := by decide
  refine ⟨.clamp 7, ?_, ?_⟩
  · rw [lopsided_inOrder] at hn
    simp only [List.mem_cons, List.not_mem_nil, or_false] at hn
    rcases hn with rfl | rfl | rfl <;> rfl
  · rintro ⟨i, links⟩ _ s hs
    change (Checked.get lopsided.nodes i).map (·.value) = .ok s at hs
    cases hentry : Checked.get lopsided.nodes i with
    | error f => rw [hentry] at hs; cases hs
    | ok entry =>
      rw [hentry] at hs
      cases hs
      exact hle entry (Array.mem_of_getElem? (Checked.get_eq_ok_iff.mp hentry))

theorem any_agrees_with_collect_lopsided :
    let start : Pos .i64 := .clamp 4
    let length : Pos .i64 := .clamp 2
    let p (s : Span .i64) : Bool := Relation.contains.matches s start length
    ∃ found count,
      (lopsided.toLinkTree.any id start length (.ofPure p) () (some .new)).1.found = .ok found ∧
      (lopsided.toLinkTree.collect start length (.ofPure p) true #[] () (some .new)).1.count =
        .ok count ∧
      (found = true ↔ ∃ s ∈ lopsidedSpans, p s = true) ∧ (found = true ↔ count ≠ 0) := by
  intro start length p
  have hquery : Span.ofLength start length = .ok (queryRange start length) := by decide
  refine any_agrees_with_collect lopsided_values (by decide) (fun n hn => lopsided_endBounds hn)
    hquery (fun s hs => Relation.bounds_of_matches (by decide) hs) true #[] ?_
  rintro q hq
  obtain rfl : Pool.new = q := Option.some.inj hq
  exact Pool.clean_withLimits default

end LinkTree

end IntervalIndex
