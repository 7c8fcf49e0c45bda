import IntervalIndex.Proofs.Packed.Packing
import IntervalIndex.Proofs.Packed.WordWidth

namespace IntervalIndex.PackedTree

open Packed

variable {T : PosType} {α : Type} {span : α → Span T} {values sorted : List α}

theorem isSorted_eq_false_iff : isSorted span values = false ↔
    ∃ (i : Nat) (h : i + 1 < values.length), (span values[i + 1]).start < (span values[i]).start := by
  let inOrder (v w : α) : Prop := (span v).start ≤ (span w).start
  have htrans : Trans inOrder inOrder inOrder := ⟨fun h h' => Int.le_trans h h'⟩
  have hchain : isSorted span values = true ↔ values.IsChain inOrder :=
    isSorted_iff.trans List.isChain_iff_pairwise.symm
  rw [← Bool.not_eq_true, hchain, List.isChain_iff_getElem]
  simp only [not_forall]
  exact exists_congr fun i => exists_congr fun h => Int.not_le

/-- What building gives for values that it brings into order first. -/
structure BuildsInAnyOrder (span : α → Span T) (values : List α)
    (result : Except (Stop T) (PackedTree T α)) : Prop where
  no_fault : ∀ why, result ≠ .error (.fault why)
  rejected_iff : (∃ start stop, result = .error (.rejected (.inverted start stop))) ↔
    ∃ v ∈ values, (span v).stop < (span v).start
  least : ∀ why, result = .error (.rejected why) →
    ∃ v ∈ values, (span v).stop < (span v).start ∧
      why = .inverted (span v).start (span v).stop ∧
      ∀ w ∈ values, (span w).stop < (span w).start → (span v).start ≤ (span w).start
  /-- Packing has room in any words that can count the values with a sign. -/
  built : (∀ v ∈ values, (span v).start ≤ (span v).stop) →
    ∃ (held : List α) (t : PackedTree T α), held.Perm values ∧ result = .ok t ∧
      t.size = values.length ∧ ∀ bits, values.length < 2 ^ bits →
        Word.pack? (bits + 1) span held = some t.nodes

theorem ofSorted_unsorted (hvalid : ∀ v ∈ values, (span v).start ≤ (span v).stop)
    (hunsorted : isSorted span values = false) :
    ofSorted span values = .error (.fault .unsortedValues) := by
  rw [ofSorted, firstInverted_ok.mpr hvalid]
  simp only [hunsorted, Bool.false_eq_true, if_false]

theorem ofSorted_packs (hvalid : ∀ v ∈ values, (span v).start ≤ (span v).stop)
    (hsorted : isSorted span values = true) :
    ∃ t, ofSorted span values = .ok t ∧ t.size = values.length ∧
      ∀ bits, values.length < 2 ^ bits → Word.pack? (bits + 1) span values = some t.nodes := by
  obtain ⟨nodes, hnodes, hholds⟩ := pack_spec span values
  refine ⟨⟨span, nodes⟩, ?_, hholds.size_eq, fun bits hbits => ?_⟩
  · rw [ofSorted, firstInverted_ok.mpr hvalid]
    simp only [hsorted, if_true, hnodes]
  · rw [Word.pack?_of_lt span hbits, hnodes]
    rfl

theorem ofSorted_inAnyOrder (hperm : sorted.Perm values)
    (hsorted : sorted.Pairwise fun v w => (span v).start ≤ (span w).start) :
    BuildsInAnyOrder span values (ofSorted span sorted) := by
  by_cases hinverted : ∃ v ∈ values, (span v).stop < (span v).start
  · obtain ⟨w, hw, hw'⟩ := hinverted
    obtain ⟨v, hv, hv', hleast, herror⟩ := ofSorted_error hsorted ⟨w, hperm.mem_iff.mpr hw, hw'⟩
    rw [herror]
    refine ⟨nofun, ⟨fun _ => ⟨w, hw, hw'⟩, fun _ => ⟨_, _, rfl⟩⟩, fun why hwhy => ?_, fun hvalid => ?_⟩
    · cases hwhy
      exact ⟨v, hperm.mem_iff.mp hv, hv', rfl, fun u hu => hleast u (hperm.mem_iff.mpr hu)⟩
    · exact absurd hw' (Int.not_lt.mpr (hvalid w hw))
  · have hvalid : ∀ v ∈ sorted, (span v).start ≤ (span v).stop := fun v hv =>
      Int.not_lt.mp fun h => hinverted ⟨v, hperm.mem_iff.mp hv, h⟩
    obtain ⟨t, ht, hsize, hwords⟩ := ofSorted_packs hvalid (isSorted_iff.mpr hsorted)
    rw [ht]
    refine ⟨nofun, ⟨nofun, fun h => absurd h hinverted⟩, nofun, fun _ => ⟨sorted, t, hperm, rfl, ?_⟩⟩
    rw [← hperm.length_eq]
    exact ⟨hsize, hwords⟩

/-- Values taken as sorted are checked for inverted spans first, in their own order, and then for
theirs. Values in any order can only be refused for an inverted span, of which one with the least
start is named, whichever way of sorting brings them into order. All others are packed, and no
number that comes up on the way lies out of range. -/
theorem builders_refuse (span : α → Span T) (values : List α) :
    (∀ before v after, values = before ++ v :: after →
      (∀ u ∈ before, (span u).start ≤ (span u).stop) → (span v).stop < (span v).start →
      ofSorted span values = .error (.rejected (.inverted (span v).start (span v).stop))) ∧
    ((∀ v ∈ values, (span v).start ≤ (span v).stop) →
      ((∃ why, ofSorted span values = .error (.fault why) ∧
          why.message = "values passed to build_sorted must be ordered by start") ↔
        ∃ (i : Nat) (h : i + 1 < values.length),
          (span values[i + 1]).start < (span values[i]).start) ∧
      ((∀ (i : Nat) (h : i + 1 < values.length),
          (span values[i]).start ≤ (span values[i + 1]).start) →
        ∃ t, ofSorted span values = .ok t ∧ t.size = values.length ∧
          ∀ bits, values.length < 2 ^ bits →
            Word.pack? (bits + 1) span values = some t.nodes)) ∧
    BuildsInAnyOrder span values (ofList span values) ∧
    ∀ sorted : List α, sorted.Perm values →
      (sorted.Pairwise fun v w => (span v).start ≤ (span w).start) →
      BuildsInAnyOrder span values (ofSorted span sorted) := by
  refine ⟨?_, fun hvalid => ?_, ?_, fun sorted hperm hsorted => ofSorted_inAnyOrder hperm hsorted⟩
  · rintro before v after rfl hbefore hv
    rw [ofSorted, firstInverted_append after hbefore hv]
  · cases hsorted : isSorted span values with
    | false =>
      have hfault := ofSorted_unsorted hvalid hsorted
      obtain ⟨i, h, hlt⟩ := isSorted_eq_false_iff.mp hsorted
      exact ⟨⟨fun _ => ⟨i, h, hlt⟩, fun _ => ⟨_, hfault, rfl⟩⟩,
        fun hle => absurd hlt (Int.not_lt.mpr (hle i h))⟩
    | true =>
      obtain ⟨t, ht, hpacks⟩ := ofSorted_packs hvalid hsorted
      refine ⟨⟨?_, fun hdescent => ?_⟩, fun _ => ⟨t, ht, hpacks⟩⟩
      · rintro ⟨why, hwhy, -⟩
        cases ht.symm.trans hwhy
      · rw [isSorted_eq_false_iff.mpr hdescent] at hsorted
        cases hsorted
  · exact ofSorted_inAnyOrder (List.mergeSort_perm values _) (pairwise_mergeSort span values)

def disorderedSpans : List (Span .i64) := [.clamp 5 6, .clamp 3 1, .clamp 0 9, .clamp 1 0]

theorem builders_refuse_disordered :
    ofSorted id disorderedSpans = .error (.rejected (.inverted (.clamp 3) (.clamp 1))) ∧
      (∃ v ∈ disorderedSpans, ofList id disorderedSpans =
          .error (.rejected (.inverted v.start v.stop)) ∧
        ∀ w ∈ disorderedSpans, w.stop < w.start → v.start ≤ w.start) ∧
      (∃ why, ofSorted id tiedSpans.reverse = .error (.fault why) ∧
        why.message = "values passed to build_sorted must be ordered by start") ∧
      ∃ t, ofSorted id tiedSpans = .ok t ∧ t.size = 4 ∧
        Word.pack? 4 id tiedSpans = some t.nodes := by
  obtain ⟨hfirst, -, hlist, -⟩ := builders_refuse id disorderedSpans
  obtain ⟨-, hfault, -, -⟩ := builders_refuse id tiedSpans.reverse
  obtain ⟨-, hbuilt, -, -⟩ := builders_refuse id tiedSpans
  refine ⟨hfirst [.clamp 5 6] (.clamp 3 1) [.clamp 0 9, .clamp 1 0] rfl (by decide) (by decide), ?_,
    (hfault (by decide)).1.mpr ⟨0, by decide, by decide⟩, ?_⟩
  · obtain ⟨start, stop, herror⟩ := hlist.rejected_iff.mpr ⟨.clamp 1 0, by decide, by decide⟩
    obtain ⟨v, hv, -, hwhy, hleast⟩ := hlist.least _ herror
    exact ⟨v, hv, hwhy ▸ herror, hleast⟩
  · have hsorted : tiedSpans.Pairwise fun v w => v.start ≤ w.start := by decide
    obtain ⟨t, ht, hsize, hwords⟩ := (hbuilt (by decide)).2 fun i h =>
      List.pairwise_iff_getElem.mp hsorted i (i + 1) (by omega) h (Nat.lt_succ_self i)
    exact ⟨t, ht, hsize, hwords 3 (by decide)⟩

end IntervalIndex.PackedTree
