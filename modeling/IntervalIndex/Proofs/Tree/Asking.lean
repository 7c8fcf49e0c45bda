import IntervalIndex.Proofs.Tree.PrunedSearch

namespace IntervalIndex

variable {ν α σ : Type} {T : PosType}

def throughFirst (p : α → Bool) (xs : List α) : List α := xs.take (xs.findIdx p + 1)

theorem throughFirst_cons (p : α → Bool) (x : α) (xs : List α) :
    throughFirst p (x :: xs) = x :: if p x then [] else throughFirst p xs := by
  cases h : p x <;> simp [throughFirst, List.findIdx_cons, h]

theorem throughFirst_eq_self {p : α → Bool} {xs : List α}
    (h : ∀ x ∈ throughFirst p xs, p x = false) : throughFirst p xs = xs := by
  induction xs with
  | nil => rfl
  | cons x xs ih =>
    rw [throughFirst_cons] at h ⊢
    have hx : p x = false := h x List.mem_cons_self
    rw [hx] at h ⊢
    exact congrArg (x :: ·) (ih fun y hy => h y (List.mem_cons_of_mem x hy))

theorem throughFirst_of_mem {p : α → Bool} {xs : List α} {x : α} (hx : x ∈ throughFirst p xs)
    (hp : p x = true) :
    ∃ before, throughFirst p xs = before ++ [x] ∧ ∀ y ∈ before, p y = false := by
  induction xs with
  | nil => cases hx
  | cons z xs ih =>
    rw [throughFirst_cons] at hx ⊢
    cases hz : p z with
    | true =>
      obtain rfl : x = z := by simpa [hz] using hx
      exact ⟨[], rfl, by simp⟩
    | false =>
      rcases List.mem_cons.mp hx with rfl | hx
      · cases hz.symm.trans hp
      · obtain ⟨before, heq, hbefore⟩ := ih (by simpa [hz] using hx)
        refine ⟨z :: before, ?_, ?_⟩
        · simpa [hz] using heq
        · simpa [hz] using hbefore

namespace Test

abbrev Answered (α : Type) := α × Except Fault Bool

/-- The answers to one value after another. -/
def answers (test : Test σ α) : σ → List α → List (Answered α)
  | _, [] => []
  | s, v :: vs => (v, (test s v).1) :: answers test (test s v).2 vs

/-- The state that a test is in after it was asked about some values. -/
def after (test : Test σ α) (s : σ) (vs : List α) : σ := vs.foldl (fun s v => (test s v).2) s

/-- Nothing is asked after a fault, nor after the first value accepted if no other is wanted. -/
def ends (firstOnly : Bool) : Except Fault Bool → Bool
  | .ok accepted => accepted && firstOnly
  | .error _ => true

/-- The values that are asked about until one ends it. -/
def asked (test : Test σ α) (firstOnly : Bool) (s : σ) (vs : List α) : List (Answered α) :=
  throughFirst (fun x => ends firstOnly x.2) (test.answers s vs)

def hits (answered : List (Answered α)) : List α :=
  (answered.filter fun x => granted x.2).map Prod.fst

def fault? : Answered α → Option Fault
  | (_, .ok _) => none
  | (_, .error f) => some f

/-- What a query replies after asking: the fault that ended it, if there was one. -/
def reply {β : Type} (answered : List (Answered α)) (answer : β) : Except (Stop T) β :=
  match answered.findSome? fault? with
  | none => .ok answer
  | some f => .error (.fault f)

def everySecond : Test Bool α := fun s _ => (.ok s, !s)

variable (test : Test σ α) (firstOnly : Bool) (s : σ) (v : α) (vs : List α)
  (answered : List (Answered α))

@[simp] theorem hits_nil : hits ([] : List (Answered α)) = [] := rfl

@[simp] theorem hits_cons_true : hits ((v, .ok true) :: answered) = v :: hits answered := rfl

@[simp] theorem hits_cons_false : hits ((v, .ok false) :: answered) = hits answered := rfl

@[simp] theorem hits_cons_error (f : Fault) : hits ((v, .error f) :: answered) = hits answered := rfl

@[simp] theorem reply_nil {β : Type} (answer : β) :
    (reply ([] : List (Answered α)) answer : Except (Stop T) β) = .ok answer := rfl

@[simp] theorem reply_cons_ok {β : Type} (accepted : Bool) (answer : β) :
    (reply ((v, .ok accepted) :: answered) answer : Except (Stop T) β) = reply answered answer := rfl

@[simp] theorem reply_cons_error {β : Type} (f : Fault) (answer : β) :
    (reply ((v, .error f) :: answered) answer : Except (Stop T) β) = .error (.fault f) := rfl

@[simp] theorem after_nil : test.after s [] = s := rfl

@[simp] theorem after_cons : test.after s (v :: vs) = test.after (test s v).2 vs := rfl

@[simp] theorem map_fst_answers : (test.answers s vs).map Prod.fst = vs := by
  induction vs generalizing s with
  | nil => rfl
  | cons v vs ih => rw [answers, List.map_cons, ih]

theorem asked_cons : test.asked firstOnly s (v :: vs) =
    (v, (test s v).1) ::
      if ends firstOnly (test s v).1 then [] else test.asked firstOnly (test s v).2 vs :=
  throughFirst_cons _ _ _

theorem prefix_asked : (test.asked firstOnly s vs).map Prod.fst <+: vs := by
  rw [asked, throughFirst, List.map_take, map_fst_answers]
  exact List.take_prefix _ _

theorem hits_sublist : (hits (test.asked firstOnly s vs)).Sublist vs :=
  (List.filter_sublist.map Prod.fst).trans (prefix_asked test firstOnly s vs).sublist

variable {test s v}

/-- How asking goes on after a value, by the answer to it. -/
theorem asked_of_error {f : Fault} {s' : σ} (h : test s v = (.error f, s')) :
    test.asked firstOnly s (v :: vs) = [(v, .error f)] := by
  rw [asked_cons, h]
  rfl

theorem asked_of_false {s' : σ} (h : test s v = (.ok false, s')) :
    test.asked firstOnly s (v :: vs) = (v, .ok false) :: test.asked firstOnly s' vs := by
  rw [asked_cons, h]
  rfl

theorem asked_true_of_true {s' : σ} (h : test s v = (.ok true, s')) :
    test.asked true s (v :: vs) = [(v, .ok true)] := by
  rw [asked_cons, h]
  rfl

theorem asked_false_of_true {s' : σ} (h : test s v = (.ok true, s')) :
    test.asked false s (v :: vs) = (v, .ok true) :: test.asked false s' vs := by
  rw [asked_cons, h]
  rfl

variable (test s) {firstOnly vs}

theorem map_fst_asked_false (h : ∀ v f, (v, .error f) ∉ test.asked false s vs) :
    (test.asked false s vs).map Prod.fst = vs := by
  have hall : test.asked false s vs = test.answers s vs := by
    refine throughFirst_eq_self fun x hx => ?_
    obtain ⟨v, answer⟩ := x
    cases answer with
    | ok accepted => exact Bool.and_false accepted
    | error f => exact absurd hx (h v f)
  rw [hall, map_fst_answers]

theorem hits_asked_true : hits (test.asked true s vs) = (hits (test.asked false s vs)).take 1 := by
  induction vs generalizing s with
  | nil => rfl
  | cons v vs ih =>
    rcases hs : test s v with ⟨answer, s'⟩
    rcases answer with f | accepted
    · rw [asked_of_error _ _ hs, asked_of_error _ _ hs]
      rfl
    · cases accepted with
      | false =>
        rw [asked_of_false _ _ hs, asked_of_false _ _ hs]
        exact ih s'
      | true =>
        rw [asked_true_of_true _ hs, asked_false_of_true _ hs]
        rfl

theorem asked_recording (seen : List α) :
    test.recording.asked firstOnly (s, seen) vs = test.asked firstOnly s vs := by
  have h : test.recording.answers (s, seen) vs = test.answers s vs := by
    induction vs generalizing s seen with
    | nil => rfl
    | cons v vs ih => exact congrArg ((v, (test s v).1) :: ·) (ih _ _)
  rw [asked, h, asked]

theorem after_recording (seen : List α) :
    test.recording.after (s, seen) vs = (test.after s vs, vs.reverse ++ seen) := by
  induction vs generalizing s seen with
  | nil => rfl
  | cons v vs ih =>
    refine (ih (test s v).2 (v :: seen)).trans ?_
    rw [List.reverse_cons, List.append_assoc]
    rfl

theorem reply_append {β : Type} {before : List (Answered α)} (h : ∀ x ∈ before, fault? x = none)
    (answered : List (Answered α)) (answer : β) :
    (reply (before ++ answered) answer : Except (Stop T) β) = reply answered answer := by
  rw [reply, List.findSome?_append, List.findSome?_eq_none_iff.mpr h]
  rfl

theorem reply_of_no_fault {β : Type} {answered : List (Answered α)}
    (h : ∀ v f, (v, .error f) ∉ answered) (answer : β) :
    (reply answered answer : Except (Stop T) β) = .ok answer := by
  have hnone : ∀ x ∈ answered, fault? x = none := by
    rintro ⟨v, f | accepted⟩ hx
    · exact absurd hx (h v _)
    · rfl
  rw [← List.append_nil answered, reply_append hnone, reply_nil]

theorem fault?_of_not_ends {x : Answered α} (h : ends firstOnly x.2 = false) : fault? x = none := by
  obtain ⟨v, f | accepted⟩ := x
  · cases h
  · rfl

theorem reply_asked_of_fault {β : Type} {f : Fault} (h : (v, .error f) ∈ test.asked firstOnly s vs)
    (answer : β) : (reply (test.asked firstOnly s vs) answer : Except (Stop T) β) =
      .error (.fault f) := by
  obtain ⟨before, heq, hbefore⟩ := throughFirst_of_mem h rfl
  rw [asked, heq, reply_append fun x hx => fault?_of_not_ends (hbefore x hx), reply_cons_error]

theorem hits_eq_nil_iff {answered : List (Answered α)} :
    hits answered = [] ↔ ∀ v, (v, .ok true) ∉ answered := by
  rw [hits, List.map_eq_nil_iff, List.filter_eq_nil_iff]
  refine ⟨fun h v hv => h _ hv rfl, fun h x hx => ?_⟩
  obtain ⟨v, f | _ | _⟩ := x
  · exact Bool.false_ne_true
  · exact Bool.false_ne_true
  · exact absurd hx (h v)

theorem reply_asked_eq_true_iff :
    (reply (test.asked true s vs) (!(hits (test.asked true s vs)).isEmpty) : Except (Stop T) Bool) =
      .ok true ↔ ∃ v, (v, .ok true) ∈ test.asked true s vs := by
  constructor
  · intro h
    by_contra hnone
    rw [hits_eq_nil_iff.mpr (not_exists.mp hnone), reply] at h
    split at h <;> cases h
  · rintro ⟨v, hv⟩
    have hhits : hits (test.asked true s vs) ≠ [] := fun hnil => hits_eq_nil_iff.mp hnil v hv
    obtain ⟨before, heq, hbefore⟩ := throughFirst_of_mem hv rfl
    rw [List.isEmpty_eq_false_iff.mpr hhits, asked, heq,
      reply_append fun x hx => fault?_of_not_ends (hbefore x hx)]
    rfl

theorem reply_of_forall_false {answered : List (Answered α)} (h : ∀ x ∈ answered, x.2 = .ok false) :
    (reply answered (!(hits answered).isEmpty) : Except (Stop T) Bool) = .ok false := by
  have hfaults : ∀ v f, (v, .error f) ∉ answered := fun v f hf => by cases h _ hf
  have hhits : hits answered = [] := hits_eq_nil_iff.mpr fun v hv => by cases h _ hv
  rw [reply_of_no_fault hfaults, hhits]
  rfl

end Test

open Test

theorem Collected.ofValues_eq (test : Test σ α) (firstOnly : Bool) (vs : List α) (out : Array α)
    (s : σ) (count : Nat) :
    (Collected.ofValues test firstOnly vs out s count : Collected T σ α) =
      ⟨out ++ hits (test.asked firstOnly s vs),
        test.after s ((test.asked firstOnly s vs).map Prod.fst),
        reply (test.asked firstOnly s vs) (count + (hits (test.asked firstOnly s vs)).length)⟩ := by
  fun_induction Collected.ofValues (T := T) test firstOnly vs out s count with
  | case1 out s count => simp [asked, answers, throughFirst]
  | case2 v vs out s count f s' hs =>
    rw [asked_of_error _ _ hs]
    simp [hs]
  | case3 v vs out s count s' hs ih =>
    rw [asked_of_false _ _ hs, ih]
    simp [hs]
  | case4 v vs out s count s' hs hfirst =>
    rw [hfirst, asked_true_of_true _ hs]
    simp [hs]
  | case5 v vs out s count s' hs hfirst ih =>
    obtain rfl : firstOnly = false := Bool.eq_false_iff.mpr hfirst
    rw [asked_false_of_true _ hs, ih]
    simp [hs, Nat.add_assoc, Nat.add_comm 1]

theorem Searched.ofNodes_eq {t : LinkTree ν α} (test : Test σ α) {ns : List ν} {vs : List α}
    (hvs : ns.mapM t.value = .ok vs) (s : σ) :
    (Searched.ofNodes t test ns s : Searched T σ) =
      ⟨test.after s ((test.asked true s vs).map Prod.fst),
        reply (test.asked true s vs) !(hits (test.asked true s vs)).isEmpty⟩ := by
  rw [mapM_eq_ok_iff] at hvs
  induction hvs generalizing s with
  | nil => rfl
  | @cons n v ns vs hv _ ih =>
    rcases hs : test s v with ⟨f | accepted, s'⟩
    · rw [asked_of_error _ _ hs]
      simp [Searched.ofNodes, hv, hs]
    · cases accepted with
      | false =>
        rw [asked_of_false _ _ hs]
        simp [Searched.ofNodes, hv, hs, ih]
      | true =>
        rw [asked_true_of_true _ hs]
        simp [Searched.ofNodes, hv, hs]

end IntervalIndex
