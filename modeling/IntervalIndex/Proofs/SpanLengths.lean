import IntervalIndex.Interval
import IntervalIndex.Proofs.QueryBounds

namespace IntervalIndex

variable {α : Type} {T : PosType}

namespace PosType

theorem min_of_signed (h : T.signed = true) : T.min = -T.max - 1 := by
  simp only [min, max, h, if_true]
  omega

theorem min_of_unsigned (h : T.signed = false) : T.min = 0 := by
  simp [min, h]

end PosType

namespace Span

def Accepted (s : Span T) : Prop :=
  (∃ start stop, ofBounds start stop = .ok s) ∨ ∃ start length, ofLength start length = .ok s

theorem accepted_iff {s : Span T} : s.Accepted ↔ s.start ≤ s.stop := by
  constructor
  · rintro (⟨start, stop, hs⟩ | ⟨start, length, hs⟩)
    · obtain ⟨hle, rfl⟩ := ofBounds_eq_ok_iff.mp hs
      exact hle
    · exact start_le_stop_of_ofLength hs
  · intro hle
    exact .inl ⟨s.start, s.stop, ofBounds_eq_ok_iff.mpr ⟨hle, rfl⟩⟩

theorem length_eq_ok_iff {s : Span T} {l : Pos T} :
    s.length = .ok l ↔ l.val = s.stop.val - s.start.val := by
  rw [← Pos.sub?_eq_some_iff, length]
  cases s.stop.sub? s.start <;> simp

theorem exists_length_iff {s : Span T} (hs : s.start ≤ s.stop) :
    (∃ l, s.length = .ok l) ↔ s.stop.val - s.start.val ≤ T.max := by
  simp only [length_eq_ok_iff]
  constructor
  · rintro ⟨l, hl⟩
    rw [← hl]
    exact l.le_max
  · intro hroom
    have hmin : T.min ≤ s.stop.val - s.start.val :=
      Int.le_trans T.min_le_zero (Int.sub_nonneg_of_le hs)
    exact ⟨⟨s.stop.val - s.start.val, hmin, hroom⟩, rfl⟩

theorem length_eq_error_iff {s : Span T} :
    s.length = .error .lengthOverflow ↔ ¬∃ l, s.length = .ok l := by
  rw [length]
  cases s.stop.sub? s.start <;> simp

theorem ofLength_eq_ok_of_length {s : Span T} {l : Pos T} (hs : s.start ≤ s.stop)
    (hl : s.length = .ok l) : ofLength s.start l = .ok s := by
  rw [length_eq_ok_iff] at hl
  rw [Pos.le_iff] at hs
  exact ofLength_of_add? (by omega) (Pos.add?_eq_some_iff.mpr (by omega))

theorem length_of_ofLength {s : Span T} {start length : Pos T}
    (h : ofLength start length = .ok s) : s.length = .ok length := by
  obtain ⟨-, hstop, rfl⟩ := ofLength_eq_ok_iff.mp h
  have hval := Pos.add?_eq_some_iff.mp hstop
  rw [length_eq_ok_iff]
  omega

theorem exists_length_of_unsigned (h : T.signed = false) {s : Span T} (hs : s.start ≤ s.stop) :
    ∃ l, s.length = .ok l := by
  have hmin := PosType.min_of_unsigned h
  have hstart := s.start.min_le
  have hstop := s.stop.le_max
  exact (exists_length_iff hs).mpr (by omega)

def widest : Span T := ⟨⟨T.min, Int.le_refl _, T.min_le_max⟩, .greatest⟩

theorem widest_accepted : (widest : Span T).Accepted :=
  accepted_iff.mpr T.min_le_max

/-- With a sign the positions below zero come on top of those that a length can count. -/
theorem widest_length_of_signed (h : T.signed = true) :
    (widest : Span T).length = .error .lengthOverflow := by
  rw [length_eq_error_iff, exists_length_iff T.min_le_max]
  have hmin := PosType.min_of_signed h
  have hmax := T.zero_le_max
  -- the width is twice the greatest position and one more
  change ¬(T.max - T.min ≤ T.max)
  omega

/-- A span that is accepted has a length exactly when its position type has room for the width. The
length is then the width, and gives the span back. A type without a sign always has room, and one
with a sign lacks it for some span. -/
theorem length_of_accepted :
    (∀ s : Span T, s.Accepted →
      (s.length = .error .lengthOverflow ↔ T.max < s.stop.val - s.start.val) ∧
      (s.stop.val - s.start.val ≤ T.max → ∃ l, s.length = .ok l ∧
        l.val = s.stop.val - s.start.val ∧ ofLength s.start l = .ok s) ∧
      ∀ i : Interval T α, i.span = s → i.length = s.length) ∧
    (∀ (start length : Pos T) (s : Span T),
      ofLength start length = .ok s → s.length = .ok length) ∧
    ((∀ s : Span T, s.Accepted → ∃ l, s.length = .ok l) ↔ T.signed = false) := by
  refine ⟨fun s hs => ?_, fun _ _ _ => length_of_ofLength, fun hall => ?_, fun hunsigned s hs => ?_⟩
  · have hle := accepted_iff.mp hs
    have hlength := exists_length_iff hle
    refine ⟨?_, fun hroom => ?_, ?_⟩
    · rw [length_eq_error_iff, hlength, Int.not_le]
    · obtain ⟨l, hl⟩ := hlength.mpr hroom
      exact ⟨l, hl, length_eq_ok_iff.mp hl, ofLength_eq_ok_of_length hle hl⟩
    · rintro i rfl
      rfl
  · refine Bool.eq_false_iff.mpr fun hsigned => ?_
    exact length_eq_error_iff.mp (widest_length_of_signed hsigned) (hall widest widest_accepted)
  · exact exists_length_of_unsigned hunsigned (accepted_iff.mp hs)

theorem length_of_accepted_greatest :
    let s : Span .i8 := .clamp (-100) 27
    ofBounds s.start s.stop = .ok s ∧
      ∃ l : Pos .i8, s.length = .ok l ∧ l.val = 127 ∧ ofLength s.start l = .ok s := by
  intro s
  have hs : ofBounds s.start s.stop = .ok s := rfl
  obtain ⟨-, hroom, -⟩ := (length_of_accepted (α := Unit)).1 s (.inl ⟨_, _, hs⟩)
  exact ⟨hs, hroom (by decide)⟩

/-- The bounds are accepted, and there is one position more between them than a length can count. -/
theorem length_lacks_room :
    let s : Span .i8 := .clamp (-1) 127
    ofBounds s.start s.stop = .ok s ∧ s.length = .error .lengthOverflow ∧
      ¬∀ s : Span .i8, s.Accepted → ∃ l, s.length = .ok l := by
  intro s
  have hs : ofBounds s.start s.stop = .ok s := rfl
  have hlength : s.length = .error .lengthOverflow := rfl
  exact ⟨hs, hlength, fun hall => length_eq_error_iff.mp hlength (hall s (.inl ⟨_, _, hs⟩))⟩

end Span

end IntervalIndex
