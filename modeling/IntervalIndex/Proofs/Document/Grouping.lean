import IntervalIndex.Proofs.Document.Groups
import IntervalIndex.Proofs.Packed.Answering
import Mathlib.Algebra.BigOperators.Group.List.Lemmas
import Mathlib.Data.String.Basic

namespace IntervalIndex.Catalog

open Scratch

variable {order : Order} {records : List Record} {catalog : Catalog} {name : String}

def inOrder (order : Order) (name : String) (records : List Record) : List Record :=
  order.records.sort (recordsOf name records)

theorem inOrder_perm (order : Order) (name : String) (records : List Record) :
    (inOrder order name records).Perm (records.filter (·.document == name)) :=
  order.records.perm _

theorem inOrder_pairwise (order : Order) (name : String) (records : List Record) :
    (inOrder order name records).Pairwise fun v w => v.start ≤ w.start :=
  order.records.pairwise _

theorem inOrder_eq_nil_iff (order : Order) :
    inOrder order name records = [] ↔ recordsOf name records = [] := by
  rw [← List.length_eq_zero_iff, (inOrder_perm order name records).length_eq,
    List.length_eq_zero_iff]
  rfl

/-- There is a tree for each document that has records, and it holds them. -/
structure Holds (catalog : Catalog) (order : Order) (records : List Record) : Prop where
  absent : ∀ name, recordsOf name records = [] → catalog.get? name = none
  present : ∀ name, recordsOf name records ≠ [] → ∃ tree, catalog.get? name = some tree ∧
    tree.span = Record.span ∧ tree.Holds (inOrder order name records)

theorem start_le_stop {r : Record} {range : Span .i64}
    (h : Span.ofLength r.start r.length = .ok range) : r.span.start ≤ r.span.stop :=
  le_reach (queryRange_of_ofLength h).2

theorem exists_tree (order : Order) (name : String)
    (h : ∀ r ∈ records, ∃ range, Span.ofLength r.start r.length = .ok range) :
    ∃ tree, PackedTree.ofListBy order.records (recordsOf name records) = .ok tree ∧
      tree.span = Record.span ∧ tree.Holds (inOrder order name records) := by
  refine PackedTree.ofListBy_ok order.records fun r hr => ?_
  obtain ⟨range, hrange⟩ := h r (List.mem_filter.mp hr).1
  exact start_le_stop hrange

/-- Once all records have passed their check, no tree can fail to be built. -/
theorem ofRecordsBy_ok (order : Order)
    (h : ∀ r ∈ records, ∃ range, Span.ofLength r.start r.length = .ok range) :
    ∃ catalog, ofRecordsBy order records = .ok catalog ∧ catalog.Holds order records := by
  obtain ⟨groups, hrun, hgroups⟩ := foldlM_addRecord_empty h
  have hperm := order.perm groups.entries
  have hnodup : ((order.groups groups.entries).map (·.1)).Nodup :=
    (hperm.map _).nodup_iff.mpr groups.nodup
  have htree : ∀ group ∈ order.groups groups.entries, ∃ tree,
      PackedTree.ofListBy order.records group.2.toList = .ok tree := by
    intro group hgroup
    obtain ⟨tree, htree, -⟩ := exists_tree order group.1 h
    rw [(hgroups.of_mem (hperm.mem_iff.mp hgroup)).2]
    exact ⟨tree, htree⟩
  -- the groups may be taken up in any order, as no two of them have one name
  obtain ⟨trees, htrees, hfound, hothers⟩ := foldlM_addTree hnodup htree .empty
  refine ⟨⟨trees⟩, ?_, fun name hnil => ?_, fun name hne => ?_⟩
  · rw [ofRecordsBy, hrun]
    simp only [Except.mapError, bind, Except.bind, htrees]
    rfl
  · refine hothers name fun hname => ?_
    obtain ⟨group, hgroup, rfl⟩ := List.mem_map.mp hname
    exact (hgroups.of_mem (hperm.mem_iff.mp hgroup)).1 hnil
  · obtain ⟨tree, htree, hget⟩ := hfound _ (hperm.mem_iff.mpr (hgroups.mem hne))
    obtain ⟨tree', htree', hspan, hholds⟩ := exists_tree order name h
    obtain rfl : tree' = tree := Except.ok.inj (htree'.symm.trans htree)
    exact ⟨tree', hget, hspan, hholds⟩

theorem ofLength_of_ofRecordsBy (h : ofRecordsBy order records = .ok catalog) :
    ∀ r ∈ records, ∃ range, Span.ofLength r.start r.length = .ok range := by
  rw [ofRecordsBy] at h
  cases hrun : records.foldlM addRecord .empty with
  | error why =>
    rw [hrun] at h
    cases h
  | ok groups => exact ofLength_of_foldlM hrun

theorem holds_of_ofRecordsBy (h : ofRecordsBy order records = .ok catalog) :
    catalog.Holds order records := by
  obtain ⟨catalog', hcatalog, hholds⟩ := ofRecordsBy_ok order (ofLength_of_ofRecordsBy h)
  obtain rfl := Except.ok.inj (h.symm.trans hcatalog)
  exact hholds

theorem ofRecordsBy_error (order : Order) {before : List Record}
    (hbefore : ∀ q ∈ before, ∃ range, Span.ofLength q.start q.length = .ok range) {r : Record}
    {why : SpanError .i64} (hr : Span.ofLength r.start r.length = .error why)
    (after : List Record) :
    ofRecordsBy order (before ++ r :: after) = .error (.rejected why) := by
  rw [ofRecordsBy, foldlM_addRecord_error .empty hbefore hr]
  rfl

namespace Holds

variable (h : catalog.Holds order records)

include h

theorem get?_eq_none_iff : catalog.get? name = none ↔ recordsOf name records = [] := by
  refine ⟨fun hnone => ?_, h.absent name⟩
  by_contra hne
  obtain ⟨tree, htree, -⟩ := h.present name hne
  cases hnone.symm.trans htree

theorem of_get? {tree : DocumentTree} (ht : catalog.get? name = some tree) :
    tree.span = Record.span ∧ tree.Holds (inOrder order name records) := by
  have hne : recordsOf name records ≠ [] := fun hnil => by cases ht.symm.trans (h.absent name hnil)
  obtain ⟨tree', htree', hholds⟩ := h.present name hne
  obtain rfl := Option.some.inj (ht.symm.trans htree')
  exact hholds

theorem query_fst {start length : Pos .i64} {range : Span .i64}
    (hrange : Span.ofLength start length = .ok range) (r : Relation) (firstOnly : Bool)
    {pool : Pool Nat} (hpool : pool.Clean) :
    (catalog.query name start length r firstOnly pool).1 =
      .ok (accepted (fun v => r.holds v.span range) firstOnly
        (inOrder order name records)).toArray := by
  rw [query, hrange]
  cases ht : catalog.get? name with
  | none =>
    have hnil := (inOrder_eq_nil_iff order).mpr (h.get?_eq_none_iff.mp ht)
    simp [hnil, accepted]
  | some tree =>
    obtain ⟨hspan, hholds⟩ := h.of_get? ht
    rw [← hspan]
    exact PackedTree.matching_fst hholds.values_eq hrange r firstOnly hpool

theorem any_fst {start length : Pos .i64} {range : Span .i64}
    (hrange : Span.ofLength start length = .ok range) (r : Relation)
    {pool : Pool Nat} (hpool : pool.Clean) :
    (catalog.any name start length r pool).1 =
      .ok ((inOrder order name records).any fun v => r.holds v.span range) := by
  rw [any, hrange]
  cases ht : catalog.get? name with
  | none =>
    have hnil := (inOrder_eq_nil_iff order).mpr (h.get?_eq_none_iff.mp ht)
    simp [hnil]
  | some tree =>
    obtain ⟨hspan, hholds⟩ := h.of_get? ht
    have hsorted := inOrder_pairwise order name records
    have hstart : ∀ v : Record, v.start = (tree.span v).start := by rw [hspan]; exact fun _ => rfl
    simp only [hstart] at hsorted
    rw [← hspan]
    exact hholds.has_fst hsorted hrange r hpool

theorem mem_names : name ∈ catalog.trees.names ↔ ∃ r ∈ records, r.document = name := by
  have hnone : catalog.get? name = none ↔ recordsOf name records = [] := h.get?_eq_none_iff
  rw [get?, NameMap.get?_eq_none_iff, recordsOf_eq_nil_iff] at hnone
  rw [← not_iff_not, hnone]
  push Not
  rfl

theorem names_perm : catalog.trees.names.Perm (records.map (·.document)).dedup := by
  apply (List.perm_ext_iff_of_nodup catalog.trees.nodup (List.nodup_dedup _)).mpr
  intro name
  exact h.mem_names.trans (List.mem_dedup.trans List.mem_map).symm

theorem sum_names :
    (catalog.trees.names.map fun name => (recordsOf name records).length).sum =
      records.length := by
  have hcount : ∀ name, (recordsOf name records).length =
      (records.map (·.document)).count name := by
    intro name
    rw [recordsOf, ← List.countP_eq_length_filter, List.count, List.countP_map]
    rfl
  simp only [hcount]
  rw [(h.names_perm.map _).sum_eq, List.sum_map_count_dedup_eq_length, List.length_map]

theorem recordCount_eq : catalog.recordCount = records.length := by
  have hsizes : ∀ entry ∈ catalog.trees.entries,
      entry.2.size = (recordsOf entry.1 records).length := by
    intro entry he
    obtain ⟨-, hholds⟩ := h.of_get? (NameMap.get?_eq_some_iff.mpr he)
    exact hholds.size_eq.trans (inOrder_perm order entry.1 records).length_eq
  calc catalog.recordCount
      = (catalog.trees.entries.map fun entry => entry.2.size).sum := by
        rw [recordCount, List.sum_eq_foldr, List.foldr_map]
    _ = (catalog.trees.names.map fun name => (recordsOf name records).length).sum := by
        rw [NameMap.names, List.map_map, List.map_congr_left hsizes]
        rfl
    _ = records.length := h.sum_names

theorem mem_documents : name ∈ catalog.documents ↔ ∃ r ∈ records, r.document = name := by
  rw [documents, List.mem_mergeSort]
  exact h.mem_names

end Holds

theorem documents_pairwise (catalog : Catalog) : catalog.documents.Pairwise (· < ·) := by
  have hsorted : catalog.documents.Pairwise (· ≤ ·) := by
    have hle := @List.pairwise_mergeSort String (fun a b => !decide (b < a)) ?_ ?_
      catalog.trees.names
    · simp only [Bool.not_eq_true', decide_eq_false_iff_not, not_lt] at hle
      exact hle
    · simp only [Bool.not_eq_true', decide_eq_false_iff_not, not_lt]
      exact fun a b c => le_trans
    · simp only [Bool.or_eq_true, Bool.not_eq_true', decide_eq_false_iff_not, not_lt]
      exact le_total
  have hdistinct : catalog.documents.Nodup :=
    (List.mergeSort_perm _ _).nodup_iff.mpr catalog.trees.nodup
  exact (hsorted.and hdistinct).imp fun hab => lt_of_le_of_ne hab.1 hab.2

theorem query_clean (catalog : Catalog) (name : String) (start length : Pos .i64) (r : Relation)
    (firstOnly : Bool) {pool : Pool Nat} (hpool : pool.Clean) :
    (catalog.query name start length r firstOnly pool).2.Clean := by
  rw [query]
  split
  · exact hpool
  · exact hpool
  · next tree _ _ =>
    apply Pool.getD_clean _ hpool
    exact tree.toLinkTree.collect_clean start length _ firstOnly #[] () hpool.of_mem_some

theorem any_clean (catalog : Catalog) (name : String) (start length : Pos .i64) (r : Relation)
    {pool : Pool Nat} (hpool : pool.Clean) :
    (catalog.any name start length r pool).2.Clean := by
  rw [any]
  split
  · exact hpool
  · exact hpool
  · next tree _ _ =>
    apply Pool.getD_clean _ hpool
    exact tree.toLinkTree.any_clean tree.span start length _ () hpool.of_mem_some

/-- What a catalog says about a document is what a list of records in order says, whatever clean pool
it draws on, and the pool stays clean. -/
structure AnswersAs (catalog : Catalog) (name : String) (held : List Record) : Prop where
  toList_eq : ∀ tree, catalog.get? name = some tree → ∀ pool : Pool Nat, pool.Clean →
    (tree.toList pool).1 = .ok held
  query_eq : ∀ start length range, Span.ofLength start length = .ok range →
    ∀ r firstOnly, ∀ pool : Pool Nat, pool.Clean →
      (catalog.query name start length r firstOnly pool).1 =
        .ok (if firstOnly then (held.filter fun v => r.holds v.span range).take 1
          else held.filter fun v => r.holds v.span range).toArray ∧
      (catalog.query name start length r firstOnly pool).2.Clean
  any_eq : ∀ start length range, Span.ofLength start length = .ok range →
    ∀ r, ∀ pool : Pool Nat, pool.Clean →
      (catalog.any name start length r pool).1 =
        .ok (!(held.filter fun v => r.holds v.span range).isEmpty) ∧
      (catalog.any name start length r pool).2.Clean

theorem Holds.answersAs (h : catalog.Holds order records) (name : String) :
    catalog.AnswersAs name (inOrder order name records) where
  toList_eq := by
    intro tree ht pool hpool
    exact (h.of_get? ht).2.toList_fst hpool
  query_eq := by
    intro start length range hrange r firstOnly pool hpool
    exact ⟨h.query_fst hrange r firstOnly hpool, query_clean _ _ _ _ _ _ hpool⟩
  any_eq := by
    intro start length range hrange r pool hpool
    refine ⟨?_, any_clean _ _ _ _ _ hpool⟩
    rw [h.any_fst hrange r hpool]
    congr 1
    rw [Bool.eq_iff_iff]
    simp

/-- A catalog is built of any records that are spans, and of no others: else the first one that is
none is reported. It lists each document once, loses no record, and its answers about a document
depend on the records of that document only, whatever building leaves open. -/
theorem records_by_document (order : Order) :
    (∀ before r after why,
      (∀ q ∈ before, ∃ range, Span.ofLength q.start q.length = .ok range) →
      Span.ofLength r.start r.length = .error why →
      ofRecordsBy order (before ++ r :: after) = .error (.rejected why)) ∧
    ∀ records : List Record,
      (∀ r ∈ records, ∃ range, Span.ofLength r.start r.length = .ok range) →
      ∃ catalog, ofRecordsBy order records = .ok catalog ∧
        catalog.recordCount = records.length ∧ catalog.documents.Pairwise (· < ·) ∧
        ∀ name, (name ∈ catalog.documents ↔ ∃ r ∈ records, r.document = name) ∧
          (catalog.get? name = none ↔ ∀ r ∈ records, r.document ≠ name) ∧
          ∃ held : List Record, held.Perm (records.filter (·.document == name)) ∧
            (held.Pairwise fun v w => v.start ≤ w.start) ∧ catalog.AnswersAs name held := by
  refine ⟨fun before r after why hbefore hr => ofRecordsBy_error order hbefore hr after, ?_⟩
  intro records hvalid
  obtain ⟨catalog, hcatalog, hholds⟩ := ofRecordsBy_ok order hvalid
  refine ⟨catalog, hcatalog, hholds.recordCount_eq, catalog.documents_pairwise, fun name => ?_⟩
  refine ⟨hholds.mem_documents, hholds.get?_eq_none_iff.trans recordsOf_eq_nil_iff,
    inOrder order name records, ?_⟩
  exact ⟨inOrder_perm order name records, inOrder_pairwise order name records,
    hholds.answersAs name⟩

/-- Records of two documents, the first ones of each after the last. -/
def mixedRecords : List Record :=
  [⟨"b", .clamp 5, .clamp 2, none⟩, ⟨"a", .clamp 7, .clamp 0, some "point"⟩,
    ⟨"b", .clamp 0, .clamp 9, none⟩, ⟨"a", .clamp 1, .clamp 3, none⟩]

theorem ofLength_mixedRecords :
    ∀ r ∈ mixedRecords, ∃ range, Span.ofLength r.start r.length = .ok range := by
  have hok : ∀ r ∈ mixedRecords, (Span.ofLength r.start r.length).isOk = true := by decide
  intro r hr
  have hr := hok r hr
  cases hrange : Span.ofLength r.start r.length with
  | ok range => exact ⟨range, rfl⟩
  | error why =>
    rw [hrange] at hr
    cases hr

theorem records_by_document_mixed :
    (∃ catalog, ofRecords mixedRecords = .ok catalog ∧ catalog.recordCount = 4 ∧
      ∃ held : List Record, held.Perm (mixedRecords.filter (·.document == "b")) ∧
        catalog.AnswersAs "b" held) ∧
    ofRecords (mixedRecords ++ ⟨"a", .clamp 3, .clamp (-1), none⟩ :: mixedRecords) =
      .error (.rejected (.negativeLength (.clamp 3) (.clamp (-1)))) := by
  obtain ⟨hrefused, hbuilt⟩ := records_by_document .standard
  constructor
  · obtain ⟨catalog, hcatalog, hcount, -, hnames⟩ := hbuilt mixedRecords ofLength_mixedRecords
    obtain ⟨-, -, held, hperm, -, hanswers⟩ := hnames "b"
    exact ⟨catalog, hcatalog, hcount, held, hperm, hanswers⟩
  · exact hrefused mixedRecords _ mixedRecords _ ofLength_mixedRecords (by decide)

end IntervalIndex.Catalog
