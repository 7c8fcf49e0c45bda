import IntervalIndex.Proofs.QueryBounds
import IntervalIndex.Proofs.Records.Lines
import IntervalIndex.Proofs.Records.Offsets
import Mathlib.Tactic.MkIffOfInductiveProp

namespace IntervalIndex

namespace Record

open Records (isComment isLineEnd)

/-- A record that its own line gives back. -/
@[mk_iff]
structure FitsLine (r : Record) : Prop where
  document_tab : '\t' ∉ r.document.toList
  document_comment : r.document.toList.head? ≠ some '#'
  label_ne : r.label ≠ some ""
  label_tab : ∀ l ∈ r.label, '\t' ∉ l.toList
  label_last_return : ∀ l ∈ r.label, l.toList.getLast? ≠ some '\r'
  label_last_lineFeed : ∀ l ∈ r.label, l.toList.getLast? ≠ some '\n'
  length_nonneg : 0 ≤ r.length.val
  stop_le : r.start.val + r.length.val ≤ PosType.i64.max

instance (r : Record) : Decidable r.FitsLine := decidable_of_iff' _ (fitsLine_iff r)

namespace FitsLine

variable {r : Record}

theorem ofLength_ok (h : r.FitsLine) : ∃ range, Span.ofLength r.start r.length = .ok range :=
  Span.exists_ofLength_iff.mpr ⟨h.length_nonneg, h.stop_le⟩

theorem label_ne_nil (h : r.FitsLine) {l : String} (hl : r.label = some l) : l.toList ≠ [] := by
  intro hnil
  apply h.label_ne
  rw [hl, String.toList_eq_nil_iff.mp hnil]

theorem not_isLineEnd_label (h : r.FitsLine) {l : String} (hl : r.label = some l) {c : Char}
    (hc : c ∈ l.toList.getLast?) : isLineEnd c = false := by
  apply Bool.eq_false_iff.mpr
  intro hend
  simp only [isLineEnd, Bool.or_eq_true, beq_iff_eq] at hend
  obtain rfl | rfl := hend
  · exact h.label_last_return l hl hc
  · exact h.label_last_lineFeed l hl hc

end FitsLine

/-- A record whose columns are found again in its line, though perhaps not the end of its label. -/
structure FitsColumns (r : Record) : Prop where
  document_tab : '\t' ∉ r.document.toList
  document_comment : r.document.toList.head? ≠ some '#'
  label_tab : ∀ l ∈ r.label, '\t' ∉ l.toList
  range : ∃ range, Span.ofLength r.start r.length = .ok range

/-- The record as its line gives it back: its label loses the line ends at its end, and is no label when
nothing else is in it. -/
def reread (r : Record) : Record :=
  { r with
    label := Records.labelColumn (r.label.map fun l => Text.dropTrailing isLineEnd l.toList) }

def keptColumns (r : Record) : List (List Char) :=
  r.start.toChars :: r.length.toChars ::
    r.label.toList.map fun l => Text.dropTrailing isLineEnd l.toList

def otherColumns (r : Record) : List (List Char) :=
  r.start.toChars :: r.length.toChars :: r.label.toList.map String.toList

theorem not_mem_columns (r : Record) {c : Char} (hc : Text.isBlank c = true)
    {others : List (List Char)} (hothers : ∀ column ∈ others, c ∉ column) :
    ∀ column ∈ r.start.toChars :: r.length.toChars :: others, c ∉ column := by
  have hnumber (x : Pos .i64) : c ∉ x.toChars := by
    intro hmem
    rw [Pos.not_blank_of_mem_toChars hmem] at hc
    cases hc
  intro column hcolumn
  simp only [List.mem_cons] at hcolumn
  obtain rfl | rfl | hcolumn := hcolumn
  · exact hnumber r.start
  · exact hnumber r.length
  · exact hothers column hcolumn

theorem not_mem_otherColumns {r : Record} {c : Char} (hc : Text.isBlank c = true)
    (hlabel : ∀ l ∈ r.label, c ∉ l.toList) : ∀ column ∈ r.otherColumns, c ∉ column := by
  apply r.not_mem_columns hc
  simpa using hlabel

theorem FitsLine.fitsColumns {r : Record} (h : r.FitsLine) : r.FitsColumns :=
  ⟨h.document_tab, h.document_comment, h.label_tab, h.ofLength_ok⟩

theorem FitsLine.reread_eq {r : Record} (h : r.FitsLine) : r.reread = r := by
  obtain ⟨document, start, length, label⟩ := r
  cases label with
  | none => rfl
  | some l =>
    have hkept : Text.dropTrailing isLineEnd l.toList = l.toList :=
      Text.dropTrailing_eq_self fun c hc => h.not_isLineEnd_label rfl hc
    obtain ⟨c, cs, hcs⟩ := List.exists_cons_of_ne_nil (h.label_ne_nil rfl)
    have hl : Records.labelColumn (some l.toList) = some l := by
      rw [hcs, Records.labelColumn, ← hcs, String.ofList_toList]
      simp
    simp only [reread, Option.map_some, hkept, hl]

theorem FitsColumns.not_mem_keptColumns {r : Record} (h : r.FitsColumns) :
    ∀ column ∈ r.keptColumns, '\t' ∉ column := by
  apply r.not_mem_columns rfl
  intro column hcolumn hmem
  obtain ⟨l, hl, rfl⟩ := List.mem_map.mp hcolumn
  obtain ⟨ends, hkept, -⟩ := Text.dropTrailing_append isLineEnd l.toList
  exact h.label_tab l (Option.mem_toList.mp hl) (hkept ▸ List.mem_append_left ends hmem)

theorem toLine_toList (r : Record) :
    r.toLine.toList = r.document.toList ++ r.otherColumns.flatMap ('\t' :: ·) := by
  cases h : r.label <;> simp [toLine, otherColumns, h, toString]

end Record

namespace Records

theorem not_isLineEnd_of_not_isBlank {c : Char} (h : Text.isBlank c = false) :
    isLineEnd c = false := by
  apply Bool.eq_false_iff.mpr
  intro hend
  rw [isBlank_of_isLineEnd hend] at h
  cases h

theorem offsetColumn_toChars (missing : LineError) (x : Offset) :
    offsetColumn missing (some x.toChars) = .ok x := by
  have htrim : Text.trim x.toChars = x.toChars :=
    Text.trim_eq_self fun c hc => Pos.not_blank_of_mem_toChars hc
  simp only [offsetColumn, htrim, Offset.ofChars_toChars]

variable {r : Record}

/-- A line that is written for a record ends in a number or a label, and of these only a label may end
like a line. -/
theorem dropTrailing_toLine (r : Record) : Text.dropTrailing isLineEnd r.toLine.toList =
    r.document.toList ++ r.keptColumns.flatMap ('\t' :: ·) := by
  have htab : isLineEnd '\t' = false := rfl
  cases hlabel : r.label with
  | none =>
    have hline : r.toLine.toList =
        (r.document.toList ++ '\t' :: r.start.toChars) ++ '\t' :: r.length.toChars := by
      simp [Record.toLine_toList, Record.otherColumns, hlabel]
    have hlength : Text.dropTrailing isLineEnd r.length.toChars = r.length.toChars := by
      apply Text.dropTrailing_eq_self
      intro c hc
      exact not_isLineEnd_of_not_isBlank (Pos.not_blank_of_mem_toChars (List.mem_of_getLast? hc))
    rw [hline, Text.dropTrailing_append_cons htab, hlength]
    simp [Record.keptColumns, hlabel]
  | some l =>
    have hline : r.toLine.toList =
        (r.document.toList ++ '\t' :: r.start.toChars ++ '\t' :: r.length.toChars) ++
          '\t' :: l.toList := by
      simp [Record.toLine_toList, Record.otherColumns, hlabel]
    rw [hline, Text.dropTrailing_append_cons htab]
    simp [Record.keptColumns, hlabel]

theorem lineColumns_toLine (h : r.FitsColumns) :
    lineColumns r.toLine = (r.document.toList, r.keptColumns) := by
  rw [lineColumns, columns, dropTrailing_toLine]
  exact Text.splitOn_flatMap h.document_tab (h.not_mem_keptColumns)

theorem not_isFiller_toLine (h : r.document.toList.head? ≠ some '#') :
    isFiller r.toLine = false := by
  obtain ⟨c, hc⟩ := List.exists_mem_of_ne_nil _ (r.start.toChars_ne_nil)
  have hmem : c ∈ r.toLine.toList := by
    rw [Record.toLine_toList]
    exact List.mem_append_right _ (List.mem_cons_of_mem _ (List.mem_append_left _ hc))
  apply Bool.or_eq_false_iff.mpr
  constructor
  · apply List.all_eq_false.mpr
    exact ⟨c, hmem, by simp [Pos.not_blank_of_mem_toChars hc]⟩
  · rw [Record.toLine_toList]
    cases hd : r.document.toList with
    | nil => rfl
    | cons d ds =>
      rw [hd] at h
      simpa [isComment] using h

theorem parseLine_toLine_eq_reread (h : r.FitsColumns) :
    parseLine r.toLine = .ok (some r.reread) := by
  apply parseLine_of_readFrom (not_isFiller_toLine h.document_comment)
  rw [lineColumns_toLine h]
  refine ⟨String.ofList_toList, offsetColumn_toChars _ _, offsetColumn_toChars _ _, ?_, h.range⟩
  cases hlabel : r.label <;> simp [Record.keptColumns, Record.reread, hlabel]

theorem parseLine_append {ends : List Char} (h : ∀ c ∈ ends, isLineEnd c = true) (text : String) :
    parseLine (text ++ String.ofList ends) = parseLine text := by
  simp only [parseLine, String.toList_append, String.toList_ofList,
    Text.dropTrailing_append_of_all h]

theorem parseLine_toLine (h : r.FitsLine) : parseLine r.toLine = .ok (some r) := by
  rw [parseLine_toLine_eq_reread h.fitsColumns, h.reread_eq]

end Records

end IntervalIndex
