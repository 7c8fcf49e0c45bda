import IntervalIndex.Proofs.Scratch.CleanPool
import Mathlib.Data.List.Forall2

namespace IntervalIndex

open Scratch

variable {ν α σ : Type} {T : PosType}

theorem mapM_eq_ok_iff {β ε : Type} {f : α → Except ε β} {xs : List α} {ys : List β} :
    xs.mapM f = .ok ys ↔ List.Forall₂ (fun x y => f x = .ok y) xs ys := by
  induction xs generalizing ys with
  | nil => simp [pure, Except.pure, eq_comm]
  | cons x xs ih =>
    rw [List.mapM_cons, List.forall₂_cons_left_iff]
    simp only [← ih]
    cases hx : f x with
    | error e => simp [bind, Except.bind]
    | ok y =>
      cases hxs : xs.mapM f with
      | error e => simp [bind, Except.bind]
      | ok ys' => simp [bind, Except.bind, pure, Except.pure, eq_comm]

theorem mem_of_mapM {β ε : Type} {f : α → Except ε β} {xs : List α} {ys : List β}
    (h : xs.mapM f = .ok ys) {x : α} (hx : x ∈ xs) : ∃ y ∈ ys, f x = .ok y := by
  rw [mapM_eq_ok_iff] at h
  induction h with
  | nil => cases hx
  | @cons _ y _ ys hy _ ih =>
    rcases List.mem_cons.mp hx with rfl | hx
    · exact ⟨y, by simp, hy⟩
    · obtain ⟨z, hz, hxz⟩ := ih hx
      exact ⟨z, List.mem_cons_of_mem y hz, hxz⟩

theorem exists_of_mapM {β ε : Type} {f : α → Except ε β} {xs : List α} {ys : List β}
    (h : xs.mapM f = .ok ys) {y : β} (hy : y ∈ ys) : ∃ x ∈ xs, f x = .ok y := by
  rw [mapM_eq_ok_iff] at h
  induction h with
  | nil => cases hy
  | @cons x _ xs _ hx _ ih =>
    rcases List.mem_cons.mp hy with rfl | hy
    · exact ⟨x, by simp, hx⟩
    · obtain ⟨z, hz, hyz⟩ := ih hy
      exact ⟨z, List.mem_cons_of_mem x hz, hyz⟩

theorem exists_mapM {β ε : Type} {f : α → Except ε β} {xs : List α}
    (h : ∀ x ∈ xs, ∃ y, f x = .ok y) : ∃ ys, xs.mapM f = .ok ys := by
  induction xs with
  | nil => exact ⟨[], rfl⟩
  | cons x xs ih =>
    obtain ⟨y, hy⟩ := h x List.mem_cons_self
    obtain ⟨ys, hys⟩ := ih fun z hz => h z (List.mem_cons_of_mem x hz)
    exact ⟨y :: ys, mapM_eq_ok_iff.mpr (.cons hy (mapM_eq_ok_iff.mp hys))⟩

theorem pairwise_of_mapM {β ε : Type} {f : α → Except ε β} {xs : List α} {ys : List β}
    (h : xs.mapM f = .ok ys) {R : β → β → Prop} (hys : ys.Pairwise R) :
    xs.Pairwise fun a b => ∀ v w, f a = .ok v → f b = .ok w → R v w := by
  induction xs generalizing ys with
  | nil => exact List.Pairwise.nil
  | cons x xs ih =>
    rw [mapM_eq_ok_iff, List.forall₂_cons_left_iff] at h
    obtain ⟨y, zs, hy, hzs, rfl⟩ := h
    have hrest := mapM_eq_ok_iff.mpr hzs
    rw [List.pairwise_cons] at hys ⊢
    refine ⟨?_, ih hrest hys.2⟩
    intro b hb v w hv hw
    obtain ⟨z, hz, hbz⟩ := mem_of_mapM hrest hb
    obtain rfl : y = v := Except.ok.inj (hy.symm.trans hv)
    obtain rfl : z = w := Except.ok.inj (hbz.symm.trans hw)
    exact hys.1 z hz

def LinkTree.values (t : LinkTree ν α) : Except Fault (List α) := t.unfold.inOrder.mapM t.value

theorem Walk.remaining_of_next_none {t : LinkTree ν α} {w w' : Walk ν}
    (h : w.next t = (none, w')) : w.remaining t = [] := by
  have hv := w.next_visits t
  rw [h] at hv
  exact List.head?_eq_none_iff.mp hv.symm

theorem Walk.remaining_of_next_some {t : LinkTree ν α} {w w' : Walk ν} {n : ν}
    (h : w.next t = (some n, w')) : w.remaining t = n :: w'.remaining t := by
  have hv := w.next_visits t
  have hr := w.remaining_next t
  rw [h] at hv hr
  obtain ⟨rest, hrest⟩ := List.head?_eq_some_iff.mp hv.symm
  rw [hr, hrest, List.tail_cons]

theorem Walk.drain_fst (t : LinkTree ν α) (w : Walk ν) (seen : Array ν) :
    (w.drain t seen).1.toList = seen.toList ++ w.remaining t := by
  fun_induction Walk.drain t w seen with
  | case1 w seen w' h => simp [Walk.remaining_of_next_none h]
  | case2 w seen n w' h ih => simp [ih, Walk.remaining_of_next_some h]

theorem LinkTree.toList_fst (t : LinkTree ν α) {pool : Option (Pool ν)}
    (hpool : ∀ p ∈ pool, p.Clean) : (t.toList pool).1 = t.values := by
  refine LinkTree.borrow_fst hpool fun b hb => ?_
  change ((Walk.start t b).drain t #[]).1.toList.mapM t.value = _
  rw [Walk.drain_fst, Walk.remaining_start t b hb]
  rfl

def Collected.ofValues (test : Test σ α) (firstOnly : Bool) :
    List α → Array α → σ → Nat → Collected T σ α
  | [], out, s, count => ⟨out, s, .ok count⟩
  | v :: vs, out, s, count =>
    match test s v with
    | (.error f, s) => ⟨out, s, .error (.fault f)⟩
    | (.ok false, s) => ofValues test firstOnly vs out s count
    | (.ok true, s) =>
      if firstOnly then ⟨out.push v, s, .ok (count + 1)⟩
      else ofValues test firstOnly vs (out.push v) s (count + 1)

/-- What collecting leaves behind when it goes through a list of nodes, which it may fail to read. -/
def Collected.ofNodes (t : LinkTree ν α) (test : Test σ α) (firstOnly : Bool) :
    List ν → Array α → σ → Nat → Collected T σ α
  | [], out, s, count => ⟨out, s, .ok count⟩
  | n :: ns, out, s, count =>
    match t.value n with
    | .error f => ⟨out, s, .error (.fault f)⟩
    | .ok v =>
      match test s v with
      | (.error f, s) => ⟨out, s, .error (.fault f)⟩
      | (.ok false, s) => ofNodes t test firstOnly ns out s count
      | (.ok true, s) =>
        if firstOnly then ⟨out.push v, s, .ok (count + 1)⟩
        else ofNodes t test firstOnly ns (out.push v) s (count + 1)

theorem Collected.ofNodes_eq_ofValues {t : LinkTree ν α} (test : Test σ α) (firstOnly : Bool)
    {ns : List ν} {vs : List α} (hvs : ns.mapM t.value = .ok vs) (out : Array α) (s : σ)
    (count : Nat) : (Collected.ofNodes t test firstOnly ns out s count : Collected T σ α) =
      .ofValues test firstOnly vs out s count := by
  rw [mapM_eq_ok_iff] at hvs
  induction hvs generalizing out s count with
  | nil => rfl
  | cons hv _ ih => simp only [Collected.ofNodes, Collected.ofValues, hv, ih]

theorem LinkTree.scan_eq_ofNodes (t : LinkTree ν α) (test : Test σ α) (firstOnly : Bool)
    (w : Walk ν) (out : Array α) (s : σ) (count : Nat) :
    (t.scan (T := T) test firstOnly w out s count).1 =
      .ofNodes t test firstOnly (w.remaining t) out s count := by
  fun_induction LinkTree.scan (T := T) t test firstOnly w out s count with
  | case1 w out s count w' h =>
    rw [Walk.remaining_of_next_none h]
    rfl
  | case2 w out s count n w' h f hv =>
    rw [Walk.remaining_of_next_some h]
    simp only [Collected.ofNodes, hv]
  | case3 w out s count n w' h v hv f s' hs =>
    rw [Walk.remaining_of_next_some h]
    simp only [Collected.ofNodes, hv, hs]
  | case4 w out s count n w' h v hv s' hs ih =>
    rw [Walk.remaining_of_next_some h, ih]
    simp only [Collected.ofNodes, hv, hs]
  | case5 w out s count n w' h v hv s' hs hfirst =>
    rw [Walk.remaining_of_next_some h]
    simp only [Collected.ofNodes, hv, hs, if_pos hfirst]
  | case6 w out s count n w' h v hv s' hs hfirst ih =>
    rw [Walk.remaining_of_next_some h, ih]
    simp only [Collected.ofNodes, hv, hs, if_neg hfirst]

theorem LinkTree.collect_fst {t : LinkTree ν α} {vs : List α} (hvs : t.values = .ok vs)
    {start length : Pos T} {query : Span T} (hquery : Span.ofLength start length = .ok query)
    (test : Test σ α) (firstOnly : Bool) (out : Array α) (s : σ) {pool : Option (Pool ν)}
    (hpool : ∀ p ∈ pool, p.Clean) :
    (t.collect start length test firstOnly out s pool).1 = .ofValues test firstOnly vs out s 0 := by
  rw [LinkTree.collect, hquery]
  refine LinkTree.borrow_fst hpool fun b hb => ?_
  rw [LinkTree.scan_eq_ofNodes, Walk.remaining_start t b hb]
  exact Collected.ofNodes_eq_ofValues test firstOnly hvs out s 0

def accepted (p : α → Bool) (firstOnly : Bool) (vs : List α) : List α :=
  if firstOnly then (vs.filter p).take 1 else vs.filter p

theorem Collected.ofValues_ofPure (p : α → Bool) (firstOnly : Bool) (vs : List α) (out : Array α)
    (count : Nat) : (Collected.ofValues (T := T) (.ofPure p) firstOnly vs out () count) =
      ⟨out ++ accepted p firstOnly vs, (), .ok (count + (accepted p firstOnly vs).length)⟩ := by
  induction vs generalizing out count with
  | nil => simp [Collected.ofValues, accepted]
  | cons v vs ih =>
    cases hv : p v with
    | false =>
      have ha : accepted p firstOnly (v :: vs) = accepted p firstOnly vs := by
        simp [accepted, hv]
      simp only [Collected.ofValues, Test.ofPure, hv, ha]
      exact ih out count
    | true =>
      cases firstOnly with
      | false =>
        simp only [Collected.ofValues, Test.ofPure, hv, Bool.false_eq_true, if_false]
        refine (ih (out.push v) (count + 1)).trans ?_
        simp [accepted, hv, Nat.add_assoc, Nat.add_comm 1]
      | true => simp [Collected.ofValues, Test.ofPure, hv, accepted]

end IntervalIndex
