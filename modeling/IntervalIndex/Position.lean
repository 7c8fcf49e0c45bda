import IntervalIndex.Text.Decimal

namespace IntervalIndex

/-- Whole numbers of a fixed width, in two's complement when signed. -/
structure PosType where
  signed : Bool
  bits : Nat
deriving DecidableEq, Repr

namespace PosType

def i8 : PosType := ⟨true, 8⟩
def i16 : PosType := ⟨true, 16⟩
def i32 : PosType := ⟨true, 32⟩
def i64 : PosType := ⟨true, 64⟩
def i128 : PosType := ⟨true, 128⟩
def u8 : PosType := ⟨false, 8⟩
def u16 : PosType := ⟨false, 16⟩
def u32 : PosType := ⟨false, 32⟩
def u64 : PosType := ⟨false, 64⟩
def u128 : PosType := ⟨false, 128⟩

def min (T : PosType) : Int :=
  if T.signed then -Int.pow 2 (T.bits - 1) else 0

def max (T : PosType) : Int :=
  if T.signed then Int.pow 2 (T.bits - 1) - 1 else Int.pow 2 T.bits - 1

theorem min_le_zero (T : PosType) : T.min ≤ 0 := by
  have h : 0 ≤ Int.pow 2 (T.bits - 1) := Int.pow_nonneg (by decide)
  unfold min; split <;> omega

theorem zero_le_max (T : PosType) : 0 ≤ T.max := by
  have h : 0 < Int.pow 2 (T.bits - 1) := Int.pow_pos (by decide)
  have h' : 0 < Int.pow 2 T.bits := Int.pow_pos (by decide)
  unfold max; split <;> omega

theorem min_le_max (T : PosType) : T.min ≤ T.max :=
  Int.le_trans T.min_le_zero T.zero_le_max

end PosType

/-- A position or a length: a number that its type can hold. -/
@[ext]
structure Pos (T : PosType) where
  val : Int
  min_le : T.min ≤ val
  le_max : val ≤ T.max
deriving DecidableEq, Repr

namespace Pos

variable {T : PosType}

instance : LE (Pos T) := ⟨fun a b => a.val ≤ b.val⟩
instance : LT (Pos T) := ⟨fun a b => a.val < b.val⟩
instance (a b : Pos T) : Decidable (a ≤ b) := inferInstanceAs (Decidable (a.val ≤ b.val))
instance (a b : Pos T) : Decidable (a < b) := inferInstanceAs (Decidable (a.val < b.val))

theorem le_iff {a b : Pos T} : a ≤ b ↔ a.val ≤ b.val := Iff.rfl
theorem lt_iff {a b : Pos T} : a < b ↔ a.val < b.val := Iff.rfl

def zero : Pos T := ⟨0, T.min_le_zero, T.zero_le_max⟩

def greatest : Pos T := ⟨T.max, T.min_le_max, Int.le_refl _⟩

def ofInt? (x : Int) : Option (Pos T) :=
  if h : T.min ≤ x ∧ x ≤ T.max then some ⟨x, h.1, h.2⟩ else none

def add? (a b : Pos T) : Option (Pos T) := ofInt? (a.val + b.val)

def sub? (a b : Pos T) : Option (Pos T) := ofInt? (a.val - b.val)

def toChars (a : Pos T) : List Char := Text.Decimal.ofInt a.val

instance : ToString (Pos T) := ⟨fun a => String.ofList a.toChars⟩

theorem ofInt?_eq_some_iff {x : Int} {a : Pos T} : ofInt? x = some a ↔ a.val = x := by
  unfold ofInt?
  constructor
  · intro h
    split at h
    · cases h; rfl
    · cases h
  · rintro rfl
    simp [a.min_le, a.le_max]

theorem ofInt?_eq_none_iff {x : Int} : (ofInt? x : Option (Pos T)) = none ↔ x < T.min ∨ T.max < x := by
  unfold ofInt?
  split <;> simp <;> omega

@[simp] theorem ofInt?_val (a : Pos T) : ofInt? a.val = some a :=
  ofInt?_eq_some_iff.mpr rfl

theorem add?_eq_some_iff {a b c : Pos T} : a.add? b = some c ↔ c.val = a.val + b.val :=
  ofInt?_eq_some_iff

theorem sub?_eq_some_iff {a b c : Pos T} : a.sub? b = some c ↔ c.val = a.val - b.val :=
  ofInt?_eq_some_iff

/-- One past the last position of a range, or the greatest position when the sum has no room. -/
def reach (start length : Pos T) : Pos T := (start.add? length).getD greatest

theorem reach_of_add? {start length stop : Pos T} (h : start.add? length = some stop) :
    start.reach length = stop := by
  simp [reach, h]

end Pos

end IntervalIndex
