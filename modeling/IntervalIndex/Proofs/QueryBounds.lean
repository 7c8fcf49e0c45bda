import IntervalIndex.Predicate

namespace IntervalIndex

variable {T : PosType}

def Pos.clamp (x : Int) : Pos T :=
  ⟨max T.min (min x T.max), Int.le_max_left _ _, Int.max_le.mpr ⟨T.min_le_max, Int.min_le_right _ _⟩⟩

def Span.clamp (start stop : Int) : Span T := ⟨.clamp start, .clamp stop⟩

theorem Span.isPoint_iff {s : Span T} : s.isPoint = true ↔ s.start = s.stop := by
  simp [Span.isPoint]

theorem Span.isPoint_eq_false {s : Span T} : s.isPoint = false ↔ s.start ≠ s.stop := by
  simp [Span.isPoint]

theorem Relation.bounds_of_holds {r : Relation} {s q : Span T} (hq : q.start ≤ q.stop)
    (h : r.holds s q = true) : s.start ≤ q.stop ∧ q.start ≤ s.stop := by
  cases r with
  | overlaps =>
    simp only [holds, Span.overlaps] at h
    split at h
    all_goals
      simp only [Span.isPoint_iff, Span.isPoint_eq_false, decide_eq_true_eq, Pos.le_iff, Pos.lt_iff,
        Pos.ext_iff, ne_eq] at *
      omega
  | intersects =>
    simp only [holds, Span.intersects, decide_eq_true_eq] at h
    exact ⟨h.2, h.1⟩
  | contains =>
    simp only [holds, Span.contains, decide_eq_true_eq] at h
    exact ⟨Int.le_trans h.1 hq, Int.le_trans hq h.2⟩

theorem reach_val {start length : Pos T} (h : 0 ≤ length.val) :
    (start.reach length).val = min (start.val + length.val) T.max := by
  rw [Pos.reach]
  cases hstop : start.add? length with
  | some stop =>
    rw [← Pos.add?_eq_some_iff.mp hstop]
    exact (Int.min_eq_left stop.le_max).symm
  | none =>
    -- a sum that does not go down can only lack room above
    have hroom := Pos.ofInt?_eq_none_iff.mp hstop
    have hmin := start.min_le
    change T.max = _
    exact (Int.min_eq_right (by omega)).symm

theorem le_reach {start length : Pos T} (h : 0 ≤ length.val) : start ≤ start.reach length := by
  rw [Pos.le_iff, reach_val h]
  exact Int.le_min.mpr ⟨by omega, start.le_max⟩

/-- A value that a predicate accepts neither starts past the query nor ends before it. -/
theorem Relation.bounds_of_matches {r : Relation} {s : Span T} {start length : Pos T}
    (hlength : 0 ≤ length.val) (h : r.matches s start length = true) :
    s.start ≤ start.reach length ∧ start ≤ s.stop := by
  rw [Relation.matches_eq_holds] at h
  exact Relation.bounds_of_holds (le_reach hlength) h

/-- A value that a named predicate accepts, inverted or not, lies within the bounds of the query, also
where the query ends at the greatest position for want of room. One of the predicates asks for no
more than these bounds. -/
theorem predicates_within_bounds (s : Span T) (start : Pos T) {length : Pos T}
    (hlength : 0 ≤ length.val) :
    let stop := start.reach length
    stop.val = min (start.val + length.val) T.max ∧
      (Predicate.overlaps s start length = true → s.start ≤ stop ∧ start ≤ s.stop) ∧
      (Predicate.intersects s start length = true ↔ s.start ≤ stop ∧ start ≤ s.stop) ∧
      (Predicate.contains s start length = true → s.start ≤ stop ∧ start ≤ s.stop) ∧
      ∀ r : Relation, r.matches s start length = true → s.start ≤ stop ∧ start ≤ s.stop := by
  intro stop
  have hbounds : ∀ r : Relation, r.matches s start length = true →
      s.start ≤ stop ∧ start ≤ s.stop := fun _ => Relation.bounds_of_matches hlength
  refine ⟨reach_val hlength, hbounds .overlaps, ⟨hbounds .intersects, ?_⟩, hbounds .contains,
    hbounds⟩
  rintro ⟨hstart, hstop⟩
  exact decide_eq_true ⟨hstop, hstart⟩

theorem predicates_within_bounds_inverted :
    let s : Span .i8 := .clamp 120 110
    let start : Pos .i8 := .clamp 100
    let length : Pos .i8 := .clamp 50
    0 ≤ length.val ∧ start.add? length = none ∧ s.stop < s.start ∧
      Predicate.overlaps s start length = true ∧ (start.reach length).val = min (100 + 50) 127 ∧
      s.start ≤ start.reach length ∧ start ≤ s.stop := by
  intro s start length
  have hlength : 0 ≤ length.val := by decide
  have hoverlaps : Predicate.overlaps s start length = true := by decide
  obtain ⟨hstop, hbounds, -⟩ := predicates_within_bounds s start hlength
  exact ⟨hlength, by decide, by decide, hoverlaps, hstop, hbounds hoverlaps⟩

theorem ofLength_of_add? {start length stop : Pos T} (hlength : 0 ≤ length.val)
    (hstop : start.add? length = some stop) : Span.ofLength start length = .ok ⟨start, stop⟩ :=
  Span.ofLength_eq_ok_iff.mpr ⟨hlength, hstop, rfl⟩

theorem Span.start_le_stop_of_ofLength {start length : Pos T} {range : Span T}
    (h : ofLength start length = .ok range) : range.start ≤ range.stop := by
  obtain ⟨hlength, hstop, rfl⟩ := ofLength_eq_ok_iff.mp h
  rw [← Pos.reach_of_add? hstop]
  exact le_reach hlength

theorem Span.exists_ofLength_iff {start length : Pos T} :
    (∃ range, ofLength start length = .ok range) ↔
      0 ≤ length.val ∧ start.val + length.val ≤ T.max := by
  constructor
  · rintro ⟨range, hrange⟩
    obtain ⟨hlength, hstop, -⟩ := ofLength_eq_ok_iff.mp hrange
    rw [← Pos.add?_eq_some_iff.mp hstop]
    exact ⟨hlength, range.stop.le_max⟩
  · rintro ⟨hlength, hmax⟩
    have hmin := start.min_le
    let stop : Pos T := ⟨start.val + length.val, by omega, hmax⟩
    exact ⟨⟨start, stop⟩, ofLength_of_add? hlength (Pos.add?_eq_some_iff.mpr rfl)⟩

/-- A range is refused for a negative length first, and then for an end that does not fit. -/
theorem Span.ofLength_eq_error_iff {start length : Pos T} {why : SpanError T} :
    ofLength start length = .error why ↔
      length.val < 0 ∧ why = .negativeLength start length ∨
        0 ≤ length.val ∧ ¬ (T.min ≤ start.val + length.val ∧ start.val + length.val ≤ T.max) ∧
          why = .overflow start length := by
  have hzero : (Pos.zero : Pos T).val = 0 := rfl
  simp only [ofLength, Pos.lt_iff, hzero]
  by_cases hnegative : length.val < 0
  · simp [hnegative, Int.not_le.mpr hnegative, eq_comm]
  · rw [if_neg hnegative]
    cases hstop : start.add? length with
    | some stop =>
      have hval := Pos.add?_eq_some_iff.mp hstop
      have hmin := stop.min_le
      have hmax := stop.le_max
      simp [hnegative, ← hval, hmin, hmax]
    | none =>
      have hout := Pos.ofInt?_eq_none_iff.mp hstop
      simp [hnegative, Int.not_lt.mp hnegative, eq_comm]
      omega

theorem queryRange_of_ofLength {start length : Pos T} {query : Span T}
    (h : Span.ofLength start length = .ok query) :
    queryRange start length = query ∧ 0 ≤ length.val := by
  obtain ⟨hlength, hstop, hstart⟩ := Span.ofLength_eq_ok_iff.mp h
  refine ⟨?_, hlength⟩
  rw [queryRange, Pos.reach_of_add? hstop, ← hstart]

end IntervalIndex
