import IntervalIndex.Proofs.Records.Numerals
import IntervalIndex.Proofs.Records.ParsedLine

namespace IntervalIndex

namespace Records

/-- A line taken apart. The line ends at its end are left out, and what is kept has tabs between its
columns and nowhere else. -/
structure TakenApart (line : String) (kept document : List Char) (others : List (List Char)) :
    Prop where
  ends : ∃ ends, line.toList = kept ++ ends ∧ ∀ c ∈ ends, c = '\r' ∨ c = '\n'
  last : ∀ c ∈ kept.getLast?, c ≠ '\r' ∧ c ≠ '\n'
  columns : kept = document ++ others.flatMap ('\t' :: ·)
  no_tab : ∀ column ∈ document :: others, '\t' ∉ column

theorem takenApart (line : String) : TakenApart line (Text.dropTrailing isLineEnd line.toList)
    (lineColumns line).1 (lineColumns line).2 := by
  obtain ⟨ends, hline, hends⟩ := Text.dropTrailing_append isLineEnd line.toList
  obtain ⟨hdocument, hothers⟩ :=
    Text.not_mem_splitOn '\t' (Text.dropTrailing isLineEnd line.toList)
  refine ⟨⟨ends, hline, fun c hc => ?_⟩, fun c hc => ?_, lineColumns_join line,
    List.forall_mem_cons.mpr ⟨hdocument, hothers⟩⟩
  · simpa [isLineEnd] using hends c hc
  · exact not_isLineEnd_iff.mp (Text.getLast?_dropTrailing hc)

def OffsetIn (column : List Char) (x : Offset) : Prop :=
  ∃ cs, Text.Bare column cs ∧ Offset.Numeral cs x.val

def NoOffsetIn (column : List Char) (why : OffsetError) : Prop :=
  ∃ cs, Text.Bare column cs ∧ Offset.Misread cs why

theorem offsetIn_iff {column : List Char} {x : Offset} :
    OffsetIn column x ↔ Offset.Numeral (Text.trim column) x.val :=
  Text.exists_bare_iff

theorem noOffsetIn_iff {column : List Char} {why : OffsetError} :
    NoOffsetIn column why ↔ Offset.Misread (Text.trim column) why :=
  Text.exists_bare_iff

theorem exists_noOffsetIn_iff {column : List Char} :
    (∃ why, NoOffsetIn column why) ↔ ∀ x, ¬ OffsetIn column x := by
  simp only [offsetIn_iff, noOffsetIn_iff, Offset.exists_misread_iff]

theorem offsetColumn_some (missing : LineError) (column : List Char) :
    offsetColumn missing (some column) =
      (Offset.ofChars (Text.trim column)).mapError (.notAnOffset (String.ofList column)) := by
  rw [offsetColumn]
  cases Offset.ofChars (Text.trim column) <;> rfl

theorem offsetColumn_eq_ok_iff {missing : LineError} {column : List Char} {x : Offset} :
    offsetColumn missing (some column) = .ok x ↔ OffsetIn column x := by
  rw [offsetColumn_some, offsetIn_iff, ← Offset.ofChars_eq_ok_iff]
  cases Offset.ofChars (Text.trim column) <;> simp [Except.mapError]

theorem offsetColumn_eq_error_iff {missing why : LineError} {column : List Char} :
    offsetColumn missing (some column) = .error why ↔
      ∃ reason, NoOffsetIn column reason ∧ why = .notAnOffset (String.ofList column) reason := by
  simp only [offsetColumn_some, noOffsetIn_iff, ← Offset.ofChars_eq_error_iff]
  cases Offset.ofChars (Text.trim column) <;> simp [Except.mapError, eq_comm]

/-- What is wrong first with the columns after the document. Their range is looked at only when both
offsets are there. -/
inductive FirstWrong : List (List Char) → LineError → Prop
  | missingStart : FirstWrong [] .missingStart
  | start {column : List Char} {why : OffsetError} (rest : List (List Char))
    (hstart : NoOffsetIn column why) :
    FirstWrong (column :: rest) (.notAnOffset (String.ofList column) why)
  | missingLength {column : List Char} {start : Offset} (hstart : OffsetIn column start) :
    FirstWrong [column] .missingLength
  | length {first column : List Char} {start : Offset} {why : OffsetError}
    (rest : List (List Char)) (hstart : OffsetIn first start) (hlength : NoOffsetIn column why) :
    FirstWrong (first :: column :: rest) (.notAnOffset (String.ofList column) why)
  | negative {first second : List Char} {start length : Offset} (rest : List (List Char))
    (hstart : OffsetIn first start) (hlength : OffsetIn second length) (h : length.val < 0) :
    FirstWrong (first :: second :: rest) (.invalidSpan (.negativeLength start length))
  | overflow {first second : List Char} {start length : Offset} (rest : List (List Char))
    (hstart : OffsetIn first start) (hlength : OffsetIn second length) (h : 0 ≤ length.val)
    (hstop : PosType.i64.max < start.val + length.val) :
    FirstWrong (first :: second :: rest) (.invalidSpan (.overflow start length))

/-- A record that a document and the columns after it hold. Columns past the label make no difference. -/
structure Held (document : List Char) (others : List (List Char)) (r : Record) : Prop where
  document : r.document = String.ofList document
  others : ∃ first second rest, others = first :: second :: rest ∧ OffsetIn first r.start ∧
    OffsetIn second r.length ∧ r.label = (rest.head?.filter (· ≠ [])).map String.ofList
  length_nonneg : 0 ≤ r.length.val
  stop_le : r.start.val + r.length.val ≤ PosType.i64.max

theorem labelColumn_eq (column : Option (List Char)) :
    labelColumn column = (column.filter (· ≠ [])).map String.ofList := by
  match column with
  | none | some [] => rfl
  | some (_ :: _) => rfl

theorem Held.readFrom {document : List Char} {others : List (List Char)} {r : Record}
    (h : Held document others r) : ReadFrom r document others := by
  obtain ⟨first, second, rest, rfl, hstart, hlength, hlabel⟩ := h.others
  refine ⟨h.document.symm, offsetColumn_eq_ok_iff.mpr hstart, offsetColumn_eq_ok_iff.mpr hlength,
    ?_, Span.exists_ofLength_iff.mpr ⟨h.length_nonneg, h.stop_le⟩⟩
  rw [hlabel, ← labelColumn_eq, List.getElem?_cons_succ, List.getElem?_cons_succ,
    List.head?_eq_getElem?]

theorem held_or_firstWrong (document : List Char) (others : List (List Char)) :
    (∃ r, Held document others r) ∨ ∃ why, FirstWrong others why := by
  have hcolumn (column : List Char) : (∃ x, OffsetIn column x) ∨ ∃ why, NoOffsetIn column why := by
    rw [exists_noOffsetIn_iff, ← not_exists]
    exact Classical.em _
  match others with
  | [] => exact .inr ⟨_, .missingStart⟩
  | first :: rest =>
    obtain ⟨start, hstart⟩ | ⟨why, hwhy⟩ := hcolumn first
    case inr => exact .inr ⟨_, .start rest hwhy⟩
    match rest with
    | [] => exact .inr ⟨_, .missingLength hstart⟩
    | second :: rest =>
      obtain ⟨length, hlength⟩ | ⟨why, hwhy⟩ := hcolumn second
      case inr => exact .inr ⟨_, .length rest hstart hwhy⟩
      by_cases hnegative : length.val < 0
      · exact .inr ⟨_, .negative rest hstart hlength hnegative⟩
      have hnonneg := Int.not_lt.mp hnegative
      by_cases hstop : PosType.i64.max < start.val + length.val
      · exact .inr ⟨_, .overflow rest hstart hlength hnonneg hstop⟩
      · exact .inl ⟨⟨String.ofList document, start, length, _⟩, rfl,
          ⟨first, second, rest, rfl, hstart, hlength, rfl⟩, hnonneg, Int.not_lt.mp hstop⟩

theorem parseLine_of_held {line : String} {r : Record} (h : isFiller line = false)
    (hr : Held (lineColumns line).1 (lineColumns line).2 r) : parseLine line = .ok (some r) :=
  parseLine_of_readFrom h hr.readFrom

theorem parseLine_of_firstWrong {line : String} {why : LineError} (h : isFiller line = false)
    (hwrong : FirstWrong (lineColumns line).2 why) : parseLine line = .error why := by
  rw [parseLine_eq, h, if_neg Bool.false_ne_true]
  generalize lineColumns line = found at hwrong ⊢
  obtain ⟨document, others⟩ := found
  have hok {missing : LineError} {column : List Char} {x : Offset} (hx : OffsetIn column x) :
      offsetColumn missing (some column) = .ok x := offsetColumn_eq_ok_iff.mpr hx
  have herror {missing : LineError} {column : List Char} {reason : OffsetError}
      (hcolumn : NoOffsetIn column reason) : offsetColumn missing (some column) =
        .error (.notAnOffset (String.ofList column) reason) :=
    offsetColumn_eq_error_iff.mpr ⟨reason, hcolumn, rfl⟩
  cases hwrong with
  | missingStart => rfl
  | start rest hstart =>
    simp only [List.getElem?_cons_zero, herror hstart, bind, Except.bind]
  | missingLength hstart =>
    simp only [List.getElem?_cons_zero, hok hstart, bind, Except.bind]
    rfl
  | length rest hstart hlength =>
    simp only [List.getElem?_cons_zero, List.getElem?_cons_succ, hok hstart, herror hlength, bind,
      Except.bind]
  | @negative _ _ start length rest hstart hlength hnegative =>
    have hrange : Span.ofLength start length = .error (.negativeLength start length) :=
      Span.ofLength_eq_error_iff.mpr (.inl ⟨hnegative, rfl⟩)
    simp only [List.getElem?_cons_zero, List.getElem?_cons_succ, hok hstart, hok hlength, bind,
      Except.bind, hrange]
  | @overflow _ _ start length rest hstart hlength hnonneg hstop =>
    have hrange : Span.ofLength start length = .error (.overflow start length) :=
      Span.ofLength_eq_error_iff.mpr (.inr ⟨hnonneg, by omega, rfl⟩)
    simp only [List.getElem?_cons_zero, List.getElem?_cons_succ, hok hstart, hok hlength, bind,
      Except.bind, hrange]

variable {line : String}

theorem parseLine_eq_some_iff {r : Record} : parseLine line = .ok (some r) ↔
    isFiller line = false ∧ Held (lineColumns line).1 (lineColumns line).2 r := by
  refine ⟨fun h => ?_, fun h => parseLine_of_held h.1 h.2⟩
  have hfiller := isFiller_of_parseLine_some h
  -- every line has a place in the grammar, and only one such place gives what was read
  obtain ⟨r', hr'⟩ | ⟨why, hwhy⟩ := held_or_firstWrong (lineColumns line).1 (lineColumns line).2
  · obtain rfl : r' = r := by simpa using (parseLine_of_held hfiller hr').symm.trans h
    exact ⟨hfiller, hr'⟩
  · cases (parseLine_of_firstWrong hfiller hwhy).symm.trans h

theorem parseLine_eq_error_iff {why : LineError} : parseLine line = .error why ↔
    isFiller line = false ∧ FirstWrong (lineColumns line).2 why := by
  refine ⟨fun h => ?_, fun h => parseLine_of_firstWrong h.1 h.2⟩
  have hfiller : isFiller line = false := by
    apply Bool.eq_false_iff.mpr
    intro hfiller
    cases (parseLine_of_isFiller hfiller).symm.trans h
  obtain ⟨r, hr⟩ | ⟨why', hwhy'⟩ := held_or_firstWrong (lineColumns line).1 (lineColumns line).2
  · cases (parseLine_of_held hfiller hr).symm.trans h
  · obtain rfl : why' = why := Except.error.inj ((parseLine_of_firstWrong hfiller hwhy').symm.trans h)
    exact ⟨hfiller, hwhy'⟩

theorem readLine_eq_error_iff {number : Nat} {e : FileError} :
    readLine number (.ok line) = .error e ↔ ∃ why, parseLine line = .error why ∧
      e = .line number why := by
  rw [readLine]
  cases parseLine line <;> simp [Except.mapError, eq_comm]

/-- Text that holds no record: nothing but blanks, or a comment. -/
def Skipped (kept : List Char) : Prop :=
  (∀ c ∈ kept, Text.isBlank c = true) ∨ kept.head? = some '#'

theorem isFiller_eq_true_iff :
    isFiller line = true ↔ Skipped (Text.dropTrailing isLineEnd line.toList) := by
  rw [isFiller, ← filler_dropTrailing, Bool.or_eq_true, List.all_eq_true, isComment, beq_iff_eq,
    Skipped]

theorem isFiller_eq_false_iff :
    isFiller line = false ↔ ¬ Skipped (Text.dropTrailing isLineEnd line.toList) := by
  rw [← isFiller_eq_true_iff, Bool.not_eq_true]

/-- Without the line ends at its end, a line is skipped or holds the record that its columns hold, or it
is refused by its number for what is wrong with them first. A column is refused exactly when it has the
numeral of no offset. -/
theorem readLine_iff_grammar (line : String) :
    ∃ kept document others, TakenApart line kept document others ∧
      (∀ number, readLine number (.ok line) = .ok none ↔ Skipped kept) ∧
      (∀ number r, readLine number (.ok line) = .ok (some r) ↔
        ¬ Skipped kept ∧ Held document others r) ∧
      (∀ number e, readLine number (.ok line) = .error e ↔
        ¬ Skipped kept ∧ ∃ why, FirstWrong others why ∧ e = .line number why) ∧
      ∀ column, (∃ why, NoOffsetIn column why) ↔ ∀ x, ¬ OffsetIn column x := by
  refine ⟨_, _, _, takenApart line, fun number => ?_, fun number r => ?_, fun number e => ?_,
    fun column => exists_noOffsetIn_iff⟩
  · rw [readLine_eq_ok_iff, parseLine_eq_none_iff, isFiller_eq_true_iff]
  · rw [readLine_eq_ok_iff, parseLine_eq_some_iff, isFiller_eq_false_iff]
  · simp only [readLine_eq_error_iff, parseLine_eq_error_iff, isFiller_eq_false_iff, and_assoc,
      exists_and_left]

example : readLine 3 (.ok "a\t 9223372036854775807\t+0\r") =
      .ok (some ⟨"a", .greatest, .zero, none⟩) ∧
    readLine 3 (.ok "a\t9223372036854775808") =
      .error (.line 3 (.notAnOffset "9223372036854775808" .tooLarge)) := by decide +kernel

end Records

end IntervalIndex
