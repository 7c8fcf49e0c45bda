import IntervalIndex.Proofs.Records.WrittenLine
import IntervalIndex.Records.File

namespace IntervalIndex

theorem Record.reread_eq_iff {r : Record} : r.reread = r ↔ r.reread.label = r.label := by
  cases r
  simp [reread]

namespace Records

theorem labelColumn_eq_some {column : Option (List Char)} {l : String}
    (h : labelColumn column = some l) : column = some l.toList ∧ l.toList ≠ [] := by
  match column with
  | none | some [] => cases h
  | some (c :: cs) =>
    obtain rfl := Option.some.inj h
    simp

theorem not_isLineEnd_iff {c : Char} : isLineEnd c = false ↔ c ≠ '\r' ∧ c ≠ '\n' := by
  simp [isLineEnd]

theorem lineColumns_join (line : String) : Text.dropTrailing isLineEnd line.toList =
    (lineColumns line).1 ++ (lineColumns line).2.flatMap ('\t' :: ·) :=
  Text.splitOn_join '\t' _

theorem length_lineColumns (line : String) :
    (lineColumns line).2.length = line.toList.count '\t' := by
  obtain ⟨ends, hline, hends⟩ := Text.dropTrailing_append isLineEnd line.toList
  have hnone : ends.count '\t' = 0 := by
    rw [List.count_eq_zero]
    intro hmem
    cases hends _ hmem
  calc (lineColumns line).2.length
      = (Text.dropTrailing isLineEnd line.toList).count '\t' := Text.length_splitOn '\t' _
    _ = (Text.dropTrailing isLineEnd line.toList ++ ends).count '\t' := by
        rw [List.count_append, hnone, Nat.add_zero]
    _ = line.toList.count '\t' := by rw [← hline]

theorem fitsColumns_of_parseLine {line : String} {r : Record}
    (h : parseLine line = .ok (some r)) : r.FitsColumns := by
  have hread := readFrom_of_parseLine h
  have hdocument : r.document.toList = (lineColumns line).1 := by
    rw [← hread.document, String.toList_ofList]
  obtain ⟨hfirst, hothers⟩ :=
    Text.not_mem_splitOn '\t' (Text.dropTrailing isLineEnd line.toList)
  refine ⟨hdocument ▸ hfirst, ?_, ?_, hread.range⟩
  · intro hcomment
    have hfiller := isFiller_of_parseLine_some h
    obtain ⟨rest, hrest⟩ := List.head?_eq_some_iff.mp (hdocument ▸ hcomment)
    rw [isFiller, ← filler_dropTrailing, lineColumns_join, hrest] at hfiller
    simp [isComment] at hfiller
  · intro l hl
    obtain ⟨hcolumn, -⟩ := labelColumn_eq_some (hread.label.trans hl)
    exact hothers _ (List.mem_of_getElem? hcolumn)

theorem label_ne_nil_of_parseLine {line : String} {r : Record}
    (h : parseLine line = .ok (some r)) {l : String} (hl : r.label = some l) : l.toList ≠ [] :=
  (labelColumn_eq_some ((readFrom_of_parseLine h).label.trans hl)).2

theorem not_isLineEnd_label_of_count {line : String} {r : Record}
    (h : parseLine line = .ok (some r)) (hcount : line.toList.count '\t' ≤ 3) {l : String}
    (hl : r.label = some l) {c : Char} (hc : c ∈ l.toList.getLast?) : isLineEnd c = false := by
  obtain ⟨hcolumn, hne⟩ := labelColumn_eq_some ((readFrom_of_parseLine h).label.trans hl)
  have hjoin := lineColumns_join line
  rw [← length_lineColumns] at hcount
  generalize lineColumns line = found at hcolumn hcount hjoin
  obtain ⟨document, others⟩ := found
  match others with
  | [start, length, label] =>
    obtain rfl : label = l.toList := Option.some.inj hcolumn
    have hlast : (Text.dropTrailing isLineEnd line.toList).getLast? = l.toList.getLast? := by
      have hline : document ++ [start, length, l.toList].flatMap ('\t' :: ·) =
          (document ++ '\t' :: start ++ '\t' :: length ++ ['\t']) ++ l.toList := by simp
      rw [hjoin, hline, List.getLast?_append_of_ne_nil _ hne]
    exact Text.getLast?_dropTrailing (hlast ▸ hc)
  | [] | [_] | [_, _] => cases hcolumn
  | _ :: _ :: _ :: _ :: _ =>
    simp only [List.length_cons] at hcount
    omega

theorem labelColumn_some (cs : List Char) :
    labelColumn (some cs) = if cs = [] then none else some (String.ofList cs) := by
  cases cs <;> rfl

/-- The characters of a label, none where there is no label. -/
def labelChars (label : Option String) : List Char := (label.map String.toList).getD []

theorem label_eq_iff {label : Option String} (hlabel : ∀ l ∈ label, l.toList ≠ [])
    (cs : List Char) : labelColumn (some cs) = label ↔ labelChars label = cs := by
  rw [labelColumn_some]
  cases label with
  | none =>
    rw [labelChars, Option.map_none, Option.getD_none]
    split
    · next hcs => simp [hcs]
    · next hcs => simp [Ne.symm hcs]
  | some l =>
    have hne := hlabel l rfl
    rw [labelChars, Option.map_some, Option.getD_some]
    split
    · next hcs => simp [hcs, hne]
    · rw [Option.some.injEq, ← String.toList_inj, String.toList_ofList, eq_comm]

theorem reread_label (r : Record) :
    r.reread.label = labelColumn (some (Text.dropTrailing isLineEnd (labelChars r.label))) := by
  cases h : r.label <;> simp [Record.reread, labelChars, h, Text.dropTrailing, labelColumn]

/-- A record that was read is given back by a line of its own, but for line ends at the end of its
label, which are lost, and with them a label that has nothing else. There are none in a label that was
the last column. -/
theorem parseLine_toLine_of_parseLine {line : String} {r : Record}
    (h : parseLine line = .ok (some r)) :
    ∃ kept ends : List Char, labelChars r.label = kept ++ ends ∧
      (∀ c ∈ ends, c = '\r' ∨ c = '\n') ∧ (∀ c ∈ kept.getLast?, c ≠ '\r' ∧ c ≠ '\n') ∧
      parseLine r.toLine =
        .ok (some { r with label := if kept = [] then none else some (String.ofList kept) }) ∧
      (parseLine r.toLine = .ok (some r) ↔ ends = []) ∧
      (line.toList.count '\t' ≤ 3 → ends = []) := by
  obtain ⟨ends, hchars, hends⟩ := Text.dropTrailing_append isLineEnd (labelChars r.label)
  have hreread := parseLine_toLine_eq_reread (fitsColumns_of_parseLine h)
  have hlabel : ∀ l ∈ r.label, l.toList ≠ [] := fun l hl => label_ne_nil_of_parseLine h hl
  have hsame : parseLine r.toLine = .ok (some r) ↔ ends = [] := by
    calc parseLine r.toLine = .ok (some r)
      _ ↔ r.reread.label = r.label := by
        rw [hreread, Except.ok.injEq, Option.some.injEq, Record.reread_eq_iff]
      _ ↔ labelChars r.label = Text.dropTrailing isLineEnd (labelChars r.label) := by
        rw [reread_label, label_eq_iff hlabel]
      _ ↔ ends = [] := by
        conv_lhs => lhs; rw [hchars]
        exact List.append_right_eq_self
  refine ⟨_, ends, hchars, ?_, ?_, ?_, hsame, ?_⟩
  · intro c hc
    simpa [isLineEnd] using hends c hc
  · intro c hc
    exact not_isLineEnd_iff.mp (Text.getLast?_dropTrailing hc)
  · rw [hreread, ← labelColumn_some, ← reread_label]
    rfl
  · intro hcount
    have hkept : Text.dropTrailing isLineEnd (labelChars r.label) = labelChars r.label := by
      apply Text.dropTrailing_eq_self
      intro c hc
      cases hl : r.label with
      | none => simp [labelChars, hl] at hc
      | some l =>
        rw [hl] at hc
        exact not_isLineEnd_label_of_count h hcount hl hc
    rw [hkept] at hchars
    exact List.self_eq_append_right.mp hchars

theorem parseLine_toLine_of_parseLine_padded :
    let r : Record := ⟨" b", .clamp (-3), .clamp 0, some "x\ry"⟩
    parseLine " b\t -03\r\t+0\tx\ry\r\n" = .ok (some r) ∧ parseLine r.toLine = .ok (some r) := by
  intro r
  have h : parseLine " b\t -03\r\t+0\tx\ry\r\n" = .ok (some r) := by decide +kernel
  obtain ⟨kept, ends, -, -, -, -, hsame, hlast⟩ := parseLine_toLine_of_parseLine h
  exact ⟨h, hsame.mpr (hlast (by decide +kernel))⟩

/-- A label with a return at its end is read where a column follows it, and not read again from its own
line. -/
theorem label_return_lost : ∃ r : Record, parseLine "a\t1\t2\tx\r\tmore" = .ok (some r) ∧
    r.toLine = "a\t1\t2\tx\r" ∧ parseLine r.toLine = .ok (some { r with label := some "x" }) ∧
    parseLine r.toLine ≠ .ok (some r) :=
  ⟨⟨"a", .clamp 1, .clamp 2, some "x\r"⟩, by decide +kernel⟩

theorem readLine_eq_ok_iff {number : Nat} {line : String} {entry : Option Record} :
    readLine number (.ok line) = .ok entry ↔ parseLine line = .ok entry := by
  rw [readLine]
  cases parseLine line <;> simp [Except.mapError]

theorem fitsLine_of_parseLine_toLine {r : Record} (h : parseLine r.toLine = .ok (some r)) :
    r.FitsLine := by
  have hcolumns := fitsColumns_of_parseLine h
  have hlabel : ∀ l ∈ r.label, l.toList ≠ [] := fun l hl => label_ne_nil_of_parseLine h hl
  have hsame : labelChars r.label = Text.dropTrailing isLineEnd (labelChars r.label) := by
    rw [parseLine_toLine_eq_reread hcolumns, Except.ok.injEq, Option.some.injEq,
      Record.reread_eq_iff, reread_label] at h
    exact (label_eq_iff hlabel _).mp h
  have hlast : ∀ l ∈ r.label, ∀ c ∈ l.toList.getLast?, c ≠ '\r' ∧ c ≠ '\n' := by
    intro l hl c hc
    apply not_isLineEnd_iff.mp
    apply Text.getLast?_dropTrailing
    rw [← hsame, labelChars, Option.mem_def.mp hl]
    exact hc
  obtain ⟨hnonneg, hstop⟩ := Span.exists_ofLength_iff.mp hcolumns.range
  refine ⟨hcolumns.document_tab, hcolumns.document_comment, ?_, hcolumns.label_tab,
    fun l hl hc => (hlast l hl _ hc).1 rfl, fun l hl hc => (hlast l hl _ hc).2 rfl, hnonneg, hstop⟩
  intro hempty
  exact hlabel "" hempty rfl

/-- The line of a record, wherever it stands, gives the record back exactly when there is no tab in its
document and its label, the document does not begin like a comment, the label is not empty and does not
end like a line, and the range is one. -/
theorem readLine_toLine_iff (r : Record) (number : Nat) :
    readLine number (.ok r.toLine) = .ok (some r) ↔ r.FitsLine :=
  readLine_eq_ok_iff.trans ⟨fitsLine_of_parseLine_toLine, parseLine_toLine⟩

end Records

end IntervalIndex
