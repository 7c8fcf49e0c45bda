import IntervalIndex.Proofs.Records.Appending
import IntervalIndex.Proofs.Records.WrittenLine
import IntervalIndex.Proofs.Text.Encoding

namespace IntervalIndex

/-- A record that its line gives back within a file: it has no line feed. -/
@[mk_iff]
structure Record.FitsFile (r : Record) : Prop extends r.FitsLine where
  document_lineFeed : '\n' ∉ r.document.toList
  label_lineFeed : ∀ l ∈ r.label, '\n' ∉ l.toList

instance (r : Record) : Decidable r.FitsFile := decidable_of_iff' _ (Record.fitsFile_iff r)

namespace Records

inductive LineEnd where
  | lineFeed
  | returnLineFeed
deriving DecidableEq, Repr

def LineEnd.text : LineEnd → String
  | lineFeed => "\n"
  | returnLineFeed => "\r\n"

structure Filler where
  text : String
  filler : isFiller text = true
  lineFeed : '\n' ∉ text.toList

inductive FileLine where
  | entry (r : Record)
  | filler (f : Filler)

namespace FileLine

def text : FileLine → String
  | entry r => r.toLine
  | filler f => f.text

def record? : FileLine → Option Record
  | entry r => some r
  | filler _ => none

end FileLine

/-- How a file is written: its lines with their ends, and perhaps a last line without one. -/
structure Layout where
  ended : List (FileLine × LineEnd)
  last : Option FileLine

namespace Layout

def records (f : Layout) : List Record :=
  (f.ended.map Prod.fst ++ f.last.toList).filterMap FileLine.record?

def text (f : Layout) : String :=
  f.ended.foldr (fun (line, ending) rest => line.text ++ ending.text ++ rest)
    (f.last.elim "" FileLine.text)

def bytes (f : Layout) : List UInt8 := f.text.toUTF8.data.toList

end Layout

theorem lineFeed_not_mem_toLine {r : Record} (h : r.FitsFile) : '\n' ∉ r.toLine.toList := by
  rw [Record.toLine_toList, List.mem_append, List.mem_flatMap]
  rintro (hmem | ⟨column, hcolumn, hmem⟩)
  · exact h.document_lineFeed hmem
  · have hcolumns := Record.not_mem_otherColumns rfl h.label_lineFeed
    exact hcolumns column hcolumn ((List.mem_cons.mp hmem).resolve_left (by decide))

namespace FileLine

variable (line : FileLine)

theorem parseLine_text (h : ∀ r ∈ line.record?, r.FitsFile) :
    parseLine line.text = .ok line.record? := by
  cases line with
  | entry r => exact parseLine_toLine (h r rfl).toFitsLine
  | filler f => exact parseLine_of_isFiller f.filler

theorem lineFeed_not_mem_text (h : ∀ r ∈ line.record?, r.FitsFile) : '\n' ∉ line.text.toList := by
  cases line with
  | entry r => exact lineFeed_not_mem_toLine (h r rfl)
  | filler f => exact f.lineFeed

end FileLine

theorem readLine_decode {text : String} {entry : Option Record} (h : parseLine text = .ok entry)
    (number : Nat) :
    readLine number (Stream.decode (Stream.dropCarriageReturn (Text.encode text.toList))) =
      .ok entry := by
  obtain ⟨kept, ends, htext, hends, hdrop⟩ := Stream.dropCarriageReturn_encode text.toList
  have hline : text = String.ofList kept ++ String.ofList ends := by
    rw [← String.ofList_append, ← htext, String.ofList_toList]
  have hlineEnd : ∀ c ∈ ends, isLineEnd c = true := fun c hc => by rw [hends c hc]; rfl
  rw [hline, parseLine_append hlineEnd] at h
  rw [hdrop, Stream.decode_encode, readLine, h]
  rfl

def LineEnd.front : LineEnd → List Char
  | lineFeed => []
  | returnLineFeed => ['\r']

theorem LineEnd.text_toList (ending : LineEnd) : ending.text.toList = ending.front ++ ['\n'] := by
  cases ending <;> rfl

theorem LineEnd.isLineEnd_front (ending : LineEnd) : ∀ c ∈ ending.front, isLineEnd c = true := by
  cases ending <;> simp [front, isLineEnd]

theorem readLines_cons {number : Nat} {line : Except ReadFailure String}
    {lines : List (Except ReadFailure String)} {entry : Option Record} {rest : List Record}
    (hline : readLine number line = .ok entry) (hrest : readLines (number + 1) lines = .ok rest) :
    readLines number (line :: lines) = .ok (entry.toList ++ rest) := by
  rw [readLines] at hrest
  simp only [readLines, List.zipIdx_cons, List.map_cons, hline]
  cases entry with
  | none => exact hrest
  | some r => simp only [collect, hrest, Except.map, Option.toList_some, List.singleton_append]

namespace Layout

theorem lines_cons {line : FileLine} (h : ∀ r ∈ line.record?, r.FitsFile) (ending : LineEnd)
    (ended : List (FileLine × LineEnd)) (last : Option FileLine) :
    (Stream.ofBytes (bytes ⟨(line, ending) :: ended, last⟩)).lines =
      Stream.decode (Stream.dropCarriageReturn
          (Text.encode (line.text ++ String.ofList ending.front).toList)) ::
        (Stream.ofBytes (bytes ⟨ended, last⟩)).lines := by
  have hfront : '\n' ∉ (line.text ++ String.ofList ending.front).toList := by
    rw [String.toList_append, String.toList_ofList, List.mem_append]
    rintro (hmem | hmem)
    · exact line.lineFeed_not_mem_text h hmem
    · cases ending <;> simp [LineEnd.front] at hmem
  have htext : (text ⟨(line, ending) :: ended, last⟩).toList =
      (line.text ++ String.ofList ending.front).toList ++ '\n' :: (text ⟨ended, last⟩).toList := by
    simp [text, LineEnd.text_toList]
  rw [bytes, Text.utf8_toList, htext, Stream.lines_append hfront, bytes, Text.utf8_toList]

theorem readLines_last {line : FileLine} (h : ∀ r ∈ line.record?, r.FitsFile) (number : Nat) :
    readLines number (Stream.ofBytes (bytes ⟨[], some line⟩)).lines = .ok line.record?.toList := by
  have hparse := line.parseLine_text h
  have hbytes : bytes ⟨[], some line⟩ = Text.encode line.text.toList := Text.utf8_toList line.text
  rw [hbytes]
  by_cases hempty : line.text.toList = []
  · -- nothing after the last line feed is no line; a record is never written so
    rw [String.toList_eq_nil_iff.mp hempty] at hparse
    have hnone : line.record? = none := (Except.ok.inj hparse).symm
    rw [hempty, hnone]
    rfl
  · rw [Stream.lines_of_not_mem (line.lineFeed_not_mem_text h) hempty, String.ofList_toList]
    have hread : readLine number (.ok line.text) = .ok line.record? := by
      rw [readLine, hparse]
      rfl
    have hnil : readLines (number + 1) [] = .ok [] := rfl
    rw [readLines_cons hread hnil, List.append_nil]

theorem readLines_bytes {f : Layout} (h : ∀ r ∈ f.records, r.FitsFile) (number : Nat) :
    readLines number (Stream.ofBytes f.bytes).lines = .ok f.records := by
  obtain ⟨ended, last⟩ := f
  induction ended generalizing number with
  | nil =>
    cases last with
    | none => rfl
    | some line =>
      have hrecords : records ⟨[], some line⟩ = line.record?.toList := by
        cases hr : line.record? <;> simp [records, hr]
      rw [hrecords] at h ⊢
      exact readLines_last (fun r hr => h r (Option.mem_toList.mpr hr)) number
  | cons head ended ih =>
    obtain ⟨line, ending⟩ := head
    have hrecords : records ⟨(line, ending) :: ended, last⟩ =
        line.record?.toList ++ records ⟨ended, last⟩ := by
      cases hr : line.record? <;> simp [records, hr]
    rw [hrecords] at h ⊢
    obtain ⟨hline, hrest⟩ := List.forall_mem_append.mp h
    replace hline : ∀ r ∈ line.record?, r.FitsFile :=
      fun r hr => hline r (Option.mem_toList.mpr hr)
    rw [lines_cons hline]
    apply readLines_cons _ (ih (number + 1) hrest)
    apply readLine_decode
    rw [parseLine_append ending.isLineEnd_front]
    exact line.parseLine_text hline

/-- Whatever records a file is written for, they are what is read from it: each line ends with a line
feed or with a carriage return and a line feed, the last one perhaps with neither, and comments and
blank lines may stand anywhere among them. -/
theorem parse_bytes {records : List Record} (h : ∀ r ∈ records, r.FitsFile) {f : Layout}
    (hf : f.records = records) : parse f.bytes = .ok records := by
  subst hf
  exact readLines_bytes h 1

/-- A comment, the least start, a blank line, a label with a return in it, and no end of the last
line. -/
def mixedFile : Layout where
  ended := [(.filler ⟨"# spans", by decide, by decide⟩, .lineFeed),
    (.entry ⟨"a", .clamp (-9223372036854775808), .clamp 7, none⟩, .returnLineFeed),
    (.filler ⟨" \t", by decide, by decide⟩, .returnLineFeed)]
  last := some (.entry ⟨" b", .clamp 3, .clamp 0, some "x\ry"⟩)

theorem parse_bytes_mixed :
    parse "# spans\na\t-9223372036854775808\t7\r\n \t\r\n b\t3\t0\tx\ry".toUTF8.data.toList =
      .ok [⟨"a", .clamp (-9223372036854775808), .clamp 7, none⟩,
        ⟨" b", .clamp 3, .clamp 0, some "x\ry"⟩] := by
  have htext : mixedFile.text =
      "# spans\na\t-9223372036854775808\t7\r\n \t\r\n b\t3\t0\tx\ry" := by decide +kernel
  have hfits : ∀ r ∈ mixedFile.records, r.FitsFile := by decide +kernel
  rw [← htext]
  exact parse_bytes hfits rfl

end Layout

end Records

end IntervalIndex
