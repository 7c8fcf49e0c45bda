import IntervalIndex.Document.Catalog
import IntervalIndex.Proofs.Lookup
import IntervalIndex.Proofs.Packed.Packing

namespace IntervalIndex

namespace NameMap

variable {β : Type} {m : NameMap β} {name : String}

theorem get?_alter (m : NameMap β) (name k : String) (change : Option β → β) :
    (m.alter name change).get? k = if k = name then some (change (m.get? name)) else m.get? k := by
  obtain ⟨entries, hnodup⟩ := m
  change (alterEntries name change entries).lookup k =
    if k = name then some (change (entries.lookup name)) else entries.lookup k
  clear hnodup
  induction entries with
  | nil =>
    rw [alterEntries, List.lookup_cons]
    by_cases hk : k = name
    · simp [hk]
    · simp [hk, beq_eq_false_iff_ne.mpr hk]
  | cons entry rest ih =>
    obtain ⟨other, v⟩ := entry
    by_cases h : other = name
    · subst h
      rw [alterEntries, if_pos rfl, List.lookup_cons_self]
      by_cases hk : k = other
      · subst hk
        rw [List.lookup_cons_self, if_pos rfl]
      · simp [List.lookup_cons, hk, beq_eq_false_iff_ne.mpr hk]
    · have hname : (name == other) = false := beq_eq_false_iff_ne.mpr (Ne.symm h)
      rw [alterEntries, if_neg h, List.lookup_cons, ih]
      by_cases hk : k = other
      · subst hk
        simp [h]
      · simp [List.lookup_cons, beq_eq_false_iff_ne.mpr hk, hname]

theorem get?_insert (m : NameMap β) (name k : String) (v : β) :
    (m.insert name v).get? k = if k = name then some v else m.get? k :=
  m.get?_alter name k fun _ => v

theorem get?_eq_some_iff {v : β} : m.get? name = some v ↔ (name, v) ∈ m.entries :=
  lookup_eq_some_iff_mem m.nodup

theorem get?_eq_none_iff : m.get? name = none ↔ name ∉ m.names := lookup_eq_none_iff_not_mem

end NameMap

namespace Catalog

def recordsOf (name : String) (records : List Record) : List Record :=
  records.filter (·.document == name)

variable {records before : List Record} {groups : NameMap (Array Record)} {name : String}

theorem recordsOf_eq_nil_iff : recordsOf name records = [] ↔ ∀ r ∈ records, r.document ≠ name := by
  simp [recordsOf]

/-- There is a group for each document that has records, and it holds them as they came. -/
def Grouped (groups : NameMap (Array Record)) (records : List Record) : Prop :=
  ∀ name, groups.get? name =
    if recordsOf name records = [] then none else some (recordsOf name records).toArray

theorem addRecord_ok (groups : NameMap (Array Record)) {r : Record} {range : Span .i64}
    (h : Span.ofLength r.start r.length = .ok range) : addRecord groups r =
      .ok (groups.alter r.document fun group => (group.getD #[]).push r) := by
  rw [addRecord, h]
  rfl

theorem addRecord_error (groups : NameMap (Array Record)) {r : Record} {why : SpanError .i64}
    (h : Span.ofLength r.start r.length = .error why) : addRecord groups r = .error why := by
  rw [addRecord, h]
  rfl

theorem Grouped.alter (h : Grouped groups before) (r : Record) :
    Grouped (groups.alter r.document fun group => (group.getD #[]).push r) (before ++ [r]) := by
  intro name
  have happend : recordsOf name (before ++ [r]) =
      recordsOf name before ++ if r.document = name then [r] else [] := by
    by_cases hname : r.document = name <;> simp [recordsOf, hname]
  rw [NameMap.get?_alter, happend]
  by_cases hname : name = r.document
  · subst hname
    rw [if_pos rfl, if_pos rfl, if_neg (by simp), h r.document]
    by_cases hnil : recordsOf r.document before = []
    · simp [hnil]
    · simp [hnil]
  · rw [if_neg hname, if_neg (Ne.symm hname), List.append_nil]
    exact h name

theorem Grouped.of_mem (h : Grouped groups records) {group : String × Array Record}
    (hgroup : group ∈ groups.entries) :
    recordsOf group.1 records ≠ [] ∧ group.2 = (recordsOf group.1 records).toArray := by
  have hget := h group.1
  rw [NameMap.get?_eq_some_iff.mpr hgroup] at hget
  split at hget
  · cases hget
  · next hne => exact ⟨hne, Option.some.inj hget⟩

theorem Grouped.mem (h : Grouped groups records) (hne : recordsOf name records ≠ []) :
    (name, (recordsOf name records).toArray) ∈ groups.entries :=
  NameMap.get?_eq_some_iff.mp ((h name).trans (if_neg hne))

/-- Records are grouped one by one as long as they are spans. -/
theorem foldlM_addRecord (hgroups : Grouped groups before)
    (h : ∀ r ∈ records, ∃ range, Span.ofLength r.start r.length = .ok range) :
    ∃ groups', records.foldlM addRecord groups = .ok groups' ∧
      Grouped groups' (before ++ records) := by
  induction records generalizing groups before with
  | nil => exact ⟨groups, rfl, by rwa [List.append_nil]⟩
  | cons r rest ih =>
    obtain ⟨range, hrange⟩ := h r List.mem_cons_self
    obtain ⟨groups', hrun, hgroups'⟩ :=
      ih (hgroups.alter r) fun q hq => h q (List.mem_cons_of_mem r hq)
    refine ⟨groups', ?_, by rwa [List.append_cons]⟩
    rw [List.foldlM_cons, addRecord_ok groups hrange]
    exact hrun

theorem foldlM_addRecord_empty
    (h : ∀ r ∈ records, ∃ range, Span.ofLength r.start r.length = .ok range) :
    ∃ groups, records.foldlM addRecord .empty = .ok groups ∧ Grouped groups records :=
  @foldlM_addRecord records [] .empty (fun _ => rfl) h

theorem foldlM_addRecord_error (groups : NameMap (Array Record))
    (hbefore : ∀ q ∈ before, ∃ range, Span.ofLength q.start q.length = .ok range) {r : Record}
    {why : SpanError .i64} (hr : Span.ofLength r.start r.length = .error why)
    (after : List Record) :
    (before ++ r :: after).foldlM addRecord groups = .error why := by
  induction before generalizing groups with
  | nil =>
    rw [List.nil_append, List.foldlM_cons, addRecord_error groups hr]
    rfl
  | cons q rest ih =>
    obtain ⟨range, hrange⟩ := hbefore q List.mem_cons_self
    rw [List.cons_append, List.foldlM_cons, addRecord_ok groups hrange]
    exact ih _ fun p hp => hbefore p (List.mem_cons_of_mem q hp)

theorem ofLength_of_foldlM {groups' : NameMap (Array Record)}
    (h : records.foldlM addRecord groups = .ok groups') :
    ∀ r ∈ records, ∃ range, Span.ofLength r.start r.length = .ok range := by
  induction records generalizing groups with
  | nil => exact List.forall_mem_nil _
  | cons r rest ih =>
    rw [List.foldlM_cons] at h
    cases hr : Span.ofLength r.start r.length with
    | error why =>
      rw [addRecord_error groups hr] at h
      cases h
    | ok range =>
      rw [addRecord_ok groups hr] at h
      exact List.forall_mem_cons.mpr ⟨⟨range, hr⟩, ih h⟩

section Trees

variable {order : StartSort Record.span} {entries : List (String × Array Record)}
  {trees trees' : NameMap DocumentTree}

theorem addTree_ok (trees : NameMap DocumentTree) {group : String × Array Record}
    {tree : DocumentTree} (h : PackedTree.ofListBy order group.2.toList = .ok tree) :
    addTree order trees group = .ok (trees.insert group.1 tree) := by
  rw [addTree, h]
  rfl

/-- No two groups have one name, so no tree is lost to another. -/
theorem foldlM_addTree (hnodup : (entries.map (·.1)).Nodup)
    (h : ∀ group ∈ entries, ∃ tree, PackedTree.ofListBy order group.2.toList = .ok tree)
    (trees : NameMap DocumentTree) :
    ∃ trees', entries.foldlM (addTree order) trees = .ok trees' ∧
      (∀ group ∈ entries, ∃ tree, PackedTree.ofListBy order group.2.toList = .ok tree ∧
        trees'.get? group.1 = some tree) ∧
      ∀ name ∉ entries.map (·.1), trees'.get? name = trees.get? name := by
  -- the trees of the other groups come on top of the first one, and none of them takes its place
  induction entries generalizing trees with
  | nil => exact ⟨trees, rfl, nofun, fun _ _ => rfl⟩
  | cons group rest ih =>
    obtain ⟨hgroup, hrest⟩ := List.nodup_cons.mp hnodup
    obtain ⟨tree, htree⟩ := h group List.mem_cons_self
    obtain ⟨trees', hrun, hfound, hothers⟩ :=
      ih hrest (fun g hg => h g (List.mem_cons_of_mem group hg)) (trees.insert group.1 tree)
    refine ⟨trees', ?_, fun g hg => ?_, fun name hname => ?_⟩
    · rw [List.foldlM_cons, addTree_ok trees htree]
      exact hrun
    · rcases List.mem_cons.mp hg with rfl | hg
      · refine ⟨tree, htree, ?_⟩
        rw [hothers g.1 hgroup, NameMap.get?_insert, if_pos rfl]
      · exact hfound g hg
    · obtain ⟨hne, hname⟩ := not_or.mp (List.mem_cons.not.mp hname)
      rw [hothers name hname, NameMap.get?_insert, if_neg hne]

end Trees

end Catalog

end IntervalIndex
