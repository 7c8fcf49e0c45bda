import IntervalIndex.Proofs.Packed.Answering
import IntervalIndex.Record

namespace IntervalIndex

open Scratch PackedTree

namespace Record

/-- A length below zero that leaves room for the end. -/
def Inverted (r : Record) : Prop :=
  r.length.val < 0 ∧ PosType.i64.min ≤ r.start.val + r.length.val

instance (r : Record) : Decidable r.Inverted := inferInstanceAs (Decidable (_ ∧ _))

theorem stop_lt_start_iff (r : Record) : r.span.stop < r.span.start ↔ r.Inverted := by
  change r.start.reach r.length < r.start ↔ r.Inverted
  rw [Pos.reach, Inverted, Pos.lt_iff]
  cases hsum : r.start.add? r.length with
  | none =>
    have hroom := Pos.ofInt?_eq_none_iff.mp hsum
    have hle := r.start.le_max
    change r.start.val ≤ PosType.i64.max at hle
    simp only [Option.getD_none, Pos.greatest]
    omega
  | some stop =>
    have hval := Pos.add?_eq_some_iff.mp hsum
    have hge := stop.min_le
    simp only [Option.getD_some]
    omega

theorem start_le_stop_iff (r : Record) : r.span.start ≤ r.span.stop ↔ ¬r.Inverted := by
  rw [← stop_lt_start_iff]
  exact Int.not_lt.symm

end Record

theorem ofListBy_records_ok (order : StartSort Record.span) {records : List Record}
    (h : ∀ r ∈ records, ¬r.Inverted) : ∃ t, ofListBy order records = .ok t ∧
      t.span = Record.span ∧ t.Holds (order.sort records) :=
  ofListBy_ok order fun r hr => r.start_le_stop_iff.mpr (h r hr)

/-- A tree of records is refused exactly when some record has a length below zero and room for its
end. Any other records are all stored and found, a length below zero among them or not. -/
theorem ofListBy_records (order : StartSort Record.span) (records : List Record) :
    ((∃ start stop, ofListBy order records = .error (.rejected (.inverted start stop))) ↔
      ∃ r ∈ records, r.Inverted) ∧
    ((∀ r ∈ records, ¬r.Inverted) → ∃ t held, ofListBy order records = .ok t ∧
      held.Perm records ∧ ∀ pool : Pool Nat, pool.Clean → (t.toList pool).1 = .ok held ∧
        ∀ (relation : Relation) (start length : Pos .i64) (query : Span .i64),
          Span.ofLength start length = .ok query → (t.find relation start length pool).1 =
            .ok (held.filter fun r => relation.holds r.span query).toArray) := by
  refine ⟨⟨?_, ?_⟩, ?_⟩
  · rintro ⟨start, stop, herror⟩
    by_contra hnone
    obtain ⟨t, ht, -⟩ := ofListBy_records_ok order fun r hr hinverted => hnone ⟨r, hr, hinverted⟩
    cases ht.symm.trans herror
  · rintro ⟨r, hr, hinverted⟩
    obtain ⟨v, -, -, herror⟩ := ofListBy_error order ⟨r, hr, r.stop_lt_start_iff.mpr hinverted⟩
    exact ⟨_, _, herror⟩
  · intro hnone
    obtain ⟨t, ht, hspan, hholds⟩ := ofListBy_records_ok order hnone
    refine ⟨t, _, ht, order.perm records, fun pool hpool => ⟨hholds.toList_fst hpool, ?_⟩⟩
    intro relation start length query hquery
    have hfind := hholds.find_fst hquery relation hpool
    rwa [hspan] at hfind

/-- A length below zero whose end has no room is stored, and the record is found past its start. -/
theorem negative_length_stored :
    let r : Record := ⟨"a", .clamp (-9223372036854775807), .clamp (-2), none⟩
    r.length.val < 0 ∧ ∃ t, ofList Record.span [r] = .ok t ∧
      (t.find .overlaps (.clamp 0) (.clamp 1) .new).1 = .ok #[r] := by
  intro r
  have hstored : ∀ r' ∈ [r], ¬r'.Inverted := by decide +kernel
  obtain ⟨t, ht, hspan, hholds⟩ := ofListBy_records_ok (mergeByStart Record.span) hstored
  refine ⟨by decide +kernel, t, ht, ?_⟩
  have hquery : Span.ofLength (.clamp 0) (.clamp 1) = .ok (.clamp 0 1 : Span .i64) := by decide
  have hpool : (Pool.new : Pool Nat).Clean := Pool.clean_withLimits default
  have hone : (mergeByStart Record.span).sort [r] = [r] :=
    List.perm_singleton.mp ((mergeByStart Record.span).perm [r])
  rw [hholds.find_fst hquery .overlaps hpool, hspan, hone]
  decide +kernel

theorem ofListBy_records_mixed :
    let r : Record := ⟨"a", .clamp 5, .clamp (-9223372036854775808), none⟩
    let r' : Record := ⟨"a", .clamp (-5), .clamp (-9223372036854775808), none⟩
    (∃ start stop, ofList Record.span [r', r] = .error (.rejected (.inverted start stop))) ∧
      ∃ t held, ofList Record.span [r', r'] = .ok t ∧ held.Perm [r', r'] ∧
        (t.toList .new).1 = .ok held := by
  intro r r'
  refine ⟨(ofListBy_records (mergeByStart Record.span) [r', r]).1.mpr (by decide +kernel), ?_⟩
  obtain ⟨t, held, ht, hperm, hasked⟩ := (ofListBy_records (mergeByStart Record.span) [r', r']).2 (by decide +kernel)
  exact ⟨t, held, ht, hperm, (hasked .new (Pool.clean_withLimits default)).1⟩

end IntervalIndex
