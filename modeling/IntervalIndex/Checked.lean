import IntervalIndex.Fault

namespace IntervalIndex.Checked

variable {α : Type}

def get (xs : Array α) (i : Nat) : Except Fault α :=
  match xs[i]? with
  | some x => .ok x
  | none => .error (.outOfBounds xs.size i)

def set (xs : Array α) (i : Nat) (x : α) : Except Fault (Array α) :=
  if h : i < xs.size then .ok (xs.set i x h) else .error (.outOfBounds xs.size i)

def swap (xs : Array α) (i j : Nat) : Except Fault (Array α) :=
  if hi : i < xs.size then
    if hj : j < xs.size then .ok (xs.swap i j hi hj) else .error (.outOfBounds xs.size j)
  else .error (.outOfBounds xs.size i)

theorem get_eq_ok_iff {xs : Array α} {i : Nat} {x : α} : get xs i = .ok x ↔ xs[i]? = some x := by
  unfold get
  cases xs[i]? <;> simp

theorem get_of_lt (xs : Array α) {i : Nat} (h : i < xs.size) : get xs i = .ok xs[i] :=
  get_eq_ok_iff.mpr (Array.getElem?_eq_getElem h)

theorem set_of_lt (xs : Array α) {i : Nat} (x : α) (h : i < xs.size) :
    set xs i x = .ok (xs.set i x h) := by
  simp [set, h]

theorem swap_of_lt (xs : Array α) {i j : Nat} (hi : i < xs.size) (hj : j < xs.size) :
    swap xs i j = .ok (xs.swap i j hi hj) := by
  simp [swap, hi, hj]

end IntervalIndex.Checked
