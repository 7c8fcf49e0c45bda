import IntervalIndex.Command.Inputs
import IntervalIndex.Proofs.Records.Appending
import IntervalIndex.Proofs.Text.Encoding
import Mathlib.Data.List.DropRight

namespace IntervalIndex

namespace Records

def wholeLines (bytes : List UInt8) : List UInt8 := bytes.rdropWhile (· != 10)

theorem endsLine_wholeLines (bytes : List UInt8) : EndsLine (wholeLines bytes) := by
  by_cases hne : wholeLines bytes = []
  · exact .inl hne
  · right
    have hlast : ¬ ((wholeLines bytes).getLast hne != 10) = true :=
      List.rdropWhile_last_not (· != 10) bytes hne
    rw [List.getLast?_eq_some_getLast hne]
    simpa using hlast

theorem exists_wholeLines_append (bytes : List UInt8) :
    ∃ rest, bytes = wholeLines bytes ++ rest ∧ 10 ∉ rest := by
  refine ⟨bytes.rtakeWhile (· != 10), List.rdropWhile_append_rtakeWhile.symm, ?_⟩
  intro hmem
  exact absurd (List.mem_rtakeWhile_imp hmem) (by decide)

/-- Bytes that break off lose their unfinished last line to the failure. -/
theorem Stream.lines_of_failure (bytes : List UInt8) (e : ReadFailure) :
    lines ⟨bytes, some e⟩ = (ofBytes (wholeLines bytes)).lines ++ [.error e] := by
  obtain ⟨rest, hbytes, hrest⟩ := exists_wholeLines_append bytes
  have hlast : lines ⟨rest, some e⟩ = [.error e] := by
    simp only [lines, splitLines_of_not_mem hrest, List.map_nil, lastLine, List.nil_append]
  conv_lhs => rw [hbytes]
  rw [lines_append_lines (endsLine_wholeLines bytes), hlast]

theorem collect_concat_error (entries : List (Except FileError (Option Record))) (why : FileError) :
    collect (entries ++ [.error why]) = .error ((failure? entries).getD why) := by
  induction entries with
  | nil => rfl
  | cons entry rest ih =>
    match entry with
    | .error first => rfl
    | .ok none => exact ih
    | .ok (some r) =>
      simp only [List.cons_append, collect, ih]
      rfl

theorem Stream.records_of_failure (bytes : List UInt8) (e : ReadFailure) :
    records ⟨bytes, some e⟩ =
      .error ((failure? (ofBytes (wholeLines bytes)).entries).getD (.read e)) := by
  rw [records, entries, lines_of_failure, List.zipIdx_append, List.map_append]
  exact collect_concat_error _ _

end Records

namespace Command

open Files Records

variable {decoder : Stream → Stream} {inputs : Inputs} {path : String} {file : Stream}

/-- Bytes that are read as they are: those of the standard input, or of a file that is no compressed
one. -/
def Inputs.Plain (inputs : Inputs) (path : String) (bytes : List UInt8) : Prop :=
  if isStandard path then inputs.standard = bytes
  else extension? path ≠ some "gz" ∧ openPlain inputs.look path = .ok (.ofBytes bytes)

theorem readRecordsWith_of_stream {s : Stream} (h : inputs.streamWith decoder path = .ok s) :
    readRecordsWith decoder inputs path = s.records.mapError (.cannotParse path) := by
  rw [readRecordsWith, h]
  rfl

theorem streamWith_compressed (hgz : extension? path = some "gz")
    (hfile : openPlain inputs.look path = .ok file) :
    inputs.streamWith decoder path = .ok (decoder file) := by
  have hcompressed : isCompressed path = true := by rw [isCompressed, hgz]; rfl
  have hstandard : isStandard path = false := by
    rw [isStandard, beq_eq_false_iff_ne]
    rintro rfl
    exact absurd hgz (by decide +kernel)
  rw [Inputs.streamWith, hstandard, openWith, hfile, hcompressed]
  rfl

theorem streamWith_plain {bytes : List UInt8} (h : inputs.Plain path bytes) :
    inputs.streamWith decoder path = .ok (.ofBytes bytes) := by
  rw [Inputs.Plain] at h
  rw [Inputs.streamWith]
  by_cases hstandard : isStandard path = true
  · rw [if_pos hstandard] at h ⊢
    rw [h]
  · rw [if_neg hstandard] at h ⊢
    obtain ⟨hgz, hfile⟩ := h
    have hplain : isCompressed path = false := beq_eq_false_iff_ne.mpr hgz
    rw [openWith, hfile, hplain]
    rfl

/-- A compressed file whose bytes end as they should has the records, or the error, of a plain file of
these bytes, or of the standard input. One whose bytes break off never has records: its error is that of
the first whole line that has one, or else the failure, also where the last line could be read as a
record. -/
theorem readRecordsWith_compressed (decoder : Stream → Stream) (inputs : Inputs) {path : String}
    {file : Stream} (hgz : extension? path = some "gz")
    (hfile : openPlain inputs.look path = .ok file) :
    ((decoder file).failure = none →
      readRecordsWith decoder inputs path =
          (parse (decoder file).bytes).mapError (.cannotParse path) ∧
        ∀ (plain : Inputs) (plainPath : String), plain.Plain plainPath (decoder file).bytes →
          readRecordsWith decoder plain plainPath =
            (parse (decoder file).bytes).mapError (.cannotParse plainPath)) ∧
    ∀ e, (decoder file).failure = some e →
      readRecordsWith decoder inputs path = .error (.cannotParse path
        ((failure? (Stream.ofBytes (wholeLines (decoder file).bytes)).entries).getD
          (.read e))) := by
  rw [readRecordsWith_of_stream (streamWith_compressed hgz hfile)]
  generalize decoder file = s
  obtain ⟨bytes, failure⟩ := s
  refine ⟨?_, ?_⟩
  · rintro rfl
    exact ⟨rfl, fun plain plainPath hplain => readRecordsWith_of_stream (streamWith_plain hplain)⟩
  · rintro e rfl
    rw [Stream.records_of_failure]
    rfl

def storedLines : List UInt8 :=
  [31, 139, 8, 0, 0, 0, 0, 0, 0, 255, 1, 11, 0, 244, 255] ++ "a\t1\t2\nb\t3\t4".toUTF8.data.toList ++
    [235, 244, 11, 246, 11, 0, 0, 0]

theorem readRecordsWith_compressed_stored :
    readRecords (fun _ => .file storedLines) "spans.gz" =
        .ok [⟨"a", .clamp 1, .clamp 2, none⟩, ⟨"b", .clamp 3, .clamp 4, none⟩] ∧
      readRecords (fun _ => .file (storedLines.take 28)) "spans.gz" =
        .error (.cannotParse "spans.gz" (.read .unexpectedEnd)) := by
  have hgz : extension? "spans.gz" = some "gz" := by decide +kernel
  have hfile : ∀ bytes, openPlain (fun _ => .file bytes) "spans.gz" = .ok (.ofBytes bytes) := by
    intro bytes
    have hname : "spans.gz".toList.contains '\x00' = false := by decide
    have hsize : ¬ longestPath < "spans.gz".utf8ByteSize := by decide
    rw [openPlain, hname, if_neg hsize]
    rfl
  constructor
  · have hends : (decompress (.ofBytes storedLines)).failure = none := by decide +kernel
    have hbytes : parse (decompress (.ofBytes storedLines)).bytes =
        .ok [⟨"a", .clamp 1, .clamp 2, none⟩, ⟨"b", .clamp 3, .clamp 4, none⟩] := by
      decide +kernel
    have hread := ((readRecordsWith_compressed decompress ⟨_, []⟩ hgz (hfile storedLines)).1 hends).1
    rw [hbytes] at hread
    exact hread
  · have hbreaks : (decompress (.ofBytes (storedLines.take 28))).failure = some .unexpectedEnd := by
      decide +kernel
    have hwhole : failure? (Stream.ofBytes (wholeLines
        (decompress (.ofBytes (storedLines.take 28))).bytes)).entries = none := by
      decide +kernel
    have hread := (readRecordsWith_compressed decompress ⟨_, []⟩ hgz (hfile (storedLines.take 28))).2 _
      hbreaks
    rw [hwhole] at hread
    exact hread

end Command

end IntervalIndex
