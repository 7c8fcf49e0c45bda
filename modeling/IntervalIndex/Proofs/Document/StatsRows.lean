import IntervalIndex.Document.Stats
import IntervalIndex.Proofs.Document.Grouping
import Mathlib.Order.Bounds.Basic

namespace IntervalIndex

namespace Text.Decimal

theorem digit_eq_digitChar {d : Nat} (h : d < 10) : digit d = d.digitChar := by
  decide +revert

theorem ofNat_eq_toDigits (n : Nat) : ofNat n = Nat.toDigits 10 n := by
  fun_induction ofNat n with
  | case1 n h => rw [Nat.toDigits_of_lt_base h, digit_eq_digitChar h]
  | case2 n h ih =>
    rw [Nat.toDigits_of_base_le (by decide) (Nat.not_lt.mp h), ih,
      digit_eq_digitChar (Nat.mod_lt n (by decide))]

theorem ofList_ofNat (n : Nat) : String.ofList (ofNat n) = toString n := by
  rw [ofNat_eq_toDigits]
  exact Nat.repr_eq_ofList_toDigits.symm

theorem ofList_ofInt (x : Int) : String.ofList (ofInt x) = toString x := by
  cases x with
  | ofNat n => exact ofList_ofNat n
  | negSucc n =>
    rw [ofInt, String.ofList_cons, ofList_ofNat]
    rfl

end Text.Decimal

namespace Catalog

open Text.Decimal

variable {order : Order} {records : List Record} {catalog : Catalog} {name : String}

/-- The end of a record that has been checked is never the greatest position for want of room. -/
theorem stop_val {r : Record} {range : Span .i64} (h : Span.ofLength r.start r.length = .ok range) :
    r.span.stop.val = r.start.val + r.length.val := by
  obtain ⟨-, hstop, -⟩ := Span.ofLength_eq_ok_iff.mp h
  change (r.start.reach r.length).val = _
  rw [Pos.reach_of_add? hstop]
  exact Pos.add?_eq_some_iff.mp hstop

def ends (name : String) (records : List Record) : Set Int :=
  {x | ∃ r ∈ records, r.document = name ∧ r.start.val + r.length.val = x}

/-- The columns of a document: how many records it has, how many levels it takes to hold so many, and
how far they reach. -/
def rowOf (name : String) (count : Nat) (greatest : Int) : String :=
  s!"{name}\t{count}\t{count.log2 + 1}\t{greatest}\n"

theorem statsRow_eq {tree : DocumentTree} {stop : Pos .i64} (hsize : tree.size ≠ 0)
    (hend : tree.greatestEnd = .ok (some stop)) :
    statsRow name tree = .ok (rowOf name tree.size stop.val) := by
  have hdepth : tree.depth = tree.size.log2 + 1 := if_neg hsize
  have hstop : toString stop = toString stop.val := ofList_ofInt stop.val
  rw [statsRow, hend, hdepth]
  simp only [Except.map, decimal, ofList_ofNat, endColumn, hstop]
  rfl

theorem Holds.exists_tree (h : catalog.Holds order records)
    (hvalid : ∀ r ∈ records, ∃ range, Span.ofLength r.start r.length = .ok range)
    (hname : name ∈ catalog.documents) :
    ∃ tree stop, catalog.get? name = some tree ∧ tree.size = (recordsOf name records).length ∧
      tree.size ≠ 0 ∧ tree.greatestEnd = .ok (some stop) ∧
      IsGreatest (ends name records) stop.val := by
  obtain ⟨r, hr, hdocument⟩ := h.mem_documents.mp hname
  have hown : recordsOf name records ≠ [] := fun hnil =>
    recordsOf_eq_nil_iff.mp hnil r hr hdocument
  have hne : inOrder order name records ≠ [] := fun hnil => hown ((inOrder_eq_nil_iff order).mp hnil)
  have hmem : ∀ {r}, r ∈ inOrder order name records ↔ r ∈ records ∧ r.document = name := by
    intro r
    simp [(inOrder_perm order name records).mem_iff]
  obtain ⟨tree, htree, hspan, hholds⟩ := h.present name hown
  obtain ⟨v, hv, hend, hle⟩ := hholds.greatestEnd_of_ne_nil hne
  have hval : ∀ r ∈ inOrder order name records, (tree.span r).stop.val = r.start.val + r.length.val := by
    intro r hr
    obtain ⟨range, hrange⟩ := hvalid r (hmem.mp hr).1
    rw [hspan]
    exact stop_val hrange
  refine ⟨tree, _, htree, ?_, ?_, hend, ⟨v, (hmem.mp hv).1, (hmem.mp hv).2, (hval v hv).symm⟩, ?_⟩
  · exact hholds.size_eq.trans (inOrder_perm order name records).length_eq
  · rw [hholds.size_eq]
    exact fun hzero => hne (List.length_eq_zero_iff.mp hzero)
  · rintro x ⟨r, hr, hdocument, rfl⟩
    have hr' := hmem.mpr ⟨hr, hdocument⟩
    rw [← hval r hr']
    exact hle r hr'

theorem statsRows_eq {row : String → String}
    (h : ∀ name ∈ catalog.documents, ∃ tree, catalog.get? name = some tree ∧
      statsRow name tree = .ok (row name)) :
    catalog.statsRows = .ok (catalog.documents.map row) := by
  have hrows : catalog.documents.filterMap (fun name => (catalog.get? name).map (statsRow name)) =
      catalog.documents.map fun name => .ok (row name) := by
    rw [← List.filterMap_eq_map]
    refine List.filterMap_congr fun name hname => ?_
    obtain ⟨tree, htree, hrow⟩ := h name hname
    rw [htree, Option.map_some, hrow]
    rfl
  rw [statsRows, hrows, mapM_eq_ok_iff, List.forall₂_map_left_iff, List.forall₂_map_right_iff,
    List.forall₂_same]
  exact fun _ _ => rfl

theorem Holds.sum_documents (h : catalog.Holds order records) :
    (catalog.documents.map fun name => (recordsOf name records).length).sum = records.length := by
  rw [documents, ((List.mergeSort_perm _ _).map _).sum_eq, h.sum_names]

/-- The table of an accepted list of records has a row for each document, by name, and no other. A row
tells how many records the document has, how many levels these need, and the greatest of their
ends, which no want of room has cut. No document lacks its tree or its greatest end. -/
theorem stats_of_records (h : ofRecordsBy order records = .ok catalog) :
    ∃ (documents : List String) (greatest : String → Int),
      documents.Pairwise (· < ·) ∧
      (∀ name, name ∈ documents ↔ ∃ r ∈ records, r.document = name) ∧
      (∀ name ∈ documents, IsGreatest (ends name records) (greatest name)) ∧
      (documents.map fun name => (records.filter (·.document == name)).length).sum =
        records.length ∧
      catalog.stats = .ok ("document\tintervals\tdepth\tmax_end\n" ++
        String.join (documents.map fun name =>
          rowOf name (records.filter (·.document == name)).length (greatest name))) ∧
      catalog.documents = documents ∧
      ∀ name ∈ documents, ∃ tree stop, catalog.get? name = some tree ∧
        tree.greatestEnd = .ok (some stop) := by
  have hvalid := ofLength_of_ofRecordsBy h
  have hholds := holds_of_ofRecordsBy h
  have htree : ∀ name ∈ catalog.documents, _ := fun name hname =>
    hholds.exists_tree hvalid hname
  -- a name without records gets some number, as its row is never asked for
  have hgreatest : ∀ name, ∃ greatest : Int, name ∈ catalog.documents →
      IsGreatest (ends name records) greatest ∧ ∃ tree, catalog.get? name = some tree ∧
        statsRow name tree = .ok (rowOf name (recordsOf name records).length greatest) := by
    intro name
    by_cases hname : name ∈ catalog.documents
    · obtain ⟨tree, stop, hget, hlength, hsize, hend, hgreatest⟩ := htree name hname
      exact ⟨stop.val, fun _ => ⟨hgreatest, tree, hget, hlength ▸ statsRow_eq hsize hend⟩⟩
    · exact ⟨0, fun hmem => absurd hmem hname⟩
  choose greatest hgreatest using hgreatest
  refine ⟨catalog.documents, greatest, catalog.documents_pairwise,
    fun name => hholds.mem_documents, fun name hname => (hgreatest name hname).1,
    hholds.sum_documents, ?_, rfl, fun name hname => ?_⟩
  · rw [stats, statsRows_eq fun name hname => (hgreatest name hname).2]
    rfl
  · obtain ⟨tree, stop, hget, -, -, hend, -⟩ := htree name hname
    exact ⟨tree, stop, hget, hend⟩

theorem stats_of_records_mixed :
    ∃ (catalog : Catalog) (documents : List String) (greatest : String → Int),
      ofRecords mixedRecords = .ok catalog ∧ "a" ∈ documents ∧ "b" ∈ documents ∧
      greatest "b" = 9 ∧ catalog.stats = .ok ("document\tintervals\tdepth\tmax_end\n" ++
        String.join (documents.map fun name =>
          rowOf name (mixedRecords.filter (·.document == name)).length (greatest name))) := by
  obtain ⟨catalog, hcatalog, -⟩ := ofRecordsBy_ok .standard ofLength_mixedRecords
  obtain ⟨documents, greatest, -, hmem, hgreatest, -, hstats, -⟩ := stats_of_records hcatalog
  have hb : "b" ∈ documents := (hmem "b").mpr (by decide)
  have hle : ∀ r ∈ mixedRecords, r.document = "b" → r.start.val + r.length.val ≤ 9 := by decide
  refine ⟨catalog, documents, greatest, hcatalog, (hmem "a").mpr (by decide), hb, ?_, hstats⟩
  refine (hgreatest "b" hb).unique ⟨?_, ?_⟩
  · exact ⟨⟨"b", .clamp 0, .clamp 9, none⟩, by decide, rfl, by decide⟩
  · rintro x ⟨r, hr, hdocument, rfl⟩
    exact hle r hr hdocument

end Catalog

end IntervalIndex
