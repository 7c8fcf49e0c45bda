import IntervalIndex.Records.File
import IntervalIndex.Proofs.QueryBounds
import Mathlib.Data.List.Basic

namespace IntervalIndex.Records

def failure? (entries : List (Except FileError (Option Record))) : Option FileError :=
  entries.findSome? fun
    | .error why => some why
    | .ok _ => none

def EndsLine (bytes : List UInt8) : Prop := bytes = [] ∨ bytes.getLast? = some 10

instance (bytes : List UInt8) : Decidable (EndsLine bytes) := inferInstanceAs (Decidable (_ ∨ _))

theorem EndsLine.tail {b : UInt8} {bytes : List UInt8} (h : EndsLine (b :: bytes)) :
    EndsLine bytes := by
  cases bytes with
  | nil => exact .inl rfl
  | cons c bytes =>
    right
    have hlast := h.resolve_left (by simp)
    rwa [List.getLast?_cons_cons] at hlast

theorem EndsLine.tail_ne_nil {b : UInt8} {bytes : List UInt8} (h : EndsLine (b :: bytes))
    (hb : b ≠ 10) : bytes ≠ [] := by
  rintro rfl
  have hlast := h.resolve_left (by simp)
  exact hb (by simpa using hlast)

namespace Stream

theorem splitLines_lineFeed (bytes : List UInt8) :
    splitLines (10 :: bytes) = ([] :: (splitLines bytes).1, (splitLines bytes).2) := rfl

theorem splitLines_cons {b : UInt8} (hb : b ≠ 10) {bytes line : List UInt8}
    {lines : List (List UInt8)} (h : (splitLines bytes).1 = line :: lines) :
    splitLines (b :: bytes) = ((b :: line) :: lines, (splitLines bytes).2) := by
  simp only [splitLines, if_neg hb, h]

theorem length_splitLines (bytes : List UInt8) :
    (splitLines bytes).1.length = bytes.count 10 := by
  induction bytes with
  | nil => rfl
  | cons b bytes ih =>
    by_cases hb : b = 10
    · subst hb
      rw [splitLines_lineFeed, List.count_cons_self, List.length_cons, ih]
    · rw [List.count_cons_of_ne hb, ← ih]
      cases hlines : (splitLines bytes).1 with
      | nil => simp only [splitLines, if_neg hb, hlines]
      | cons line lines => rw [splitLines_cons hb hlines, List.length_cons, List.length_cons]

theorem splitLines_ne_nil {bytes : List UInt8} (h : EndsLine bytes) (hne : bytes ≠ []) :
    (splitLines bytes).1 ≠ [] := by
  have hmem : 10 ∈ bytes := List.mem_of_getLast? (h.resolve_left hne)
  apply List.ne_nil_of_length_pos
  rw [length_splitLines]
  exact List.count_pos_iff.mpr hmem

theorem splitLines_append_lines {a : List UInt8} (ha : EndsLine a) (b : List UInt8) :
    splitLines (a ++ b) = ((splitLines a).1 ++ (splitLines b).1, (splitLines b).2) ∧
      (splitLines a).2 = [] := by
  induction a with
  | nil => exact ⟨rfl, rfl⟩
  | cons c a ih =>
    obtain ⟨happend, hrest⟩ := ih ha.tail
    by_cases hc : c = 10
    · subst hc
      rw [List.cons_append, splitLines_lineFeed, splitLines_lineFeed, happend]
      exact ⟨rfl, hrest⟩
    · obtain ⟨line, lines, hlines⟩ := List.exists_cons_of_ne_nil
        (splitLines_ne_nil ha.tail (ha.tail_ne_nil hc))
      have hfirst : (splitLines (a ++ b)).1 = line :: (lines ++ (splitLines b).1) := by
        rw [happend, hlines, List.cons_append]
      rw [List.cons_append, splitLines_cons hc hfirst, splitLines_cons hc hlines, happend]
      exact ⟨rfl, hrest⟩

theorem lines_of_endsLine {a : List UInt8} (ha : EndsLine a) :
    (ofBytes a).lines = (splitLines a).1.map (decode ∘ dropCarriageReturn) := by
  simp only [lines, ofBytes, (splitLines_append_lines ha []).2, lastLine, List.append_nil]

theorem lines_append_lines {a : List UInt8} (ha : EndsLine a) (b : List UInt8)
    (failure : Option ReadFailure) :
    lines ⟨a ++ b, failure⟩ = (ofBytes a).lines ++ lines ⟨b, failure⟩ := by
  rw [lines_of_endsLine ha]
  simp only [lines, (splitLines_append_lines ha b).1, List.map_append, List.append_assoc]

theorem length_lines {a : List UInt8} (ha : EndsLine a) : (ofBytes a).lines.length = a.count 10 := by
  rw [lines_of_endsLine ha, List.length_map, length_splitLines]

end Stream

/-- The same error so many lines further down. What is wrong with the bytes has no line number. -/
def FileError.later (lines : Nat) : FileError → FileError
  | line number why => line (number + lines) why
  | read why => read why

/-- The records of some lines, where the first of them has this number. -/
def readLines (number : Nat) (lines : List (Except ReadFailure String)) :
    Except FileError (List Record) :=
  collect ((lines.zipIdx number).map fun (line, number) => readLine number line)

theorem collect_append (xs ys : List (Except FileError (Option Record))) :
    collect (xs ++ ys) = collect xs >>= fun records => (collect ys).map (records ++ ·) := by
  induction xs with
  | nil =>
    change collect ys = (collect ys).map id
    cases collect ys <;> rfl
  | cons x xs ih =>
    match x with
    | .error why => rfl
    | .ok none => exact ih
    | .ok (some r) =>
      simp only [List.cons_append, collect, ih]
      cases collect xs with
      | error why => rfl
      | ok records => cases collect ys <;> rfl

theorem readLines_append (number : Nat) (xs ys : List (Except ReadFailure String)) :
    readLines number (xs ++ ys) = readLines number xs >>= fun records =>
      (readLines (number + xs.length) ys).map (records ++ ·) := by
  rw [readLines, List.zipIdx_append, List.map_append, collect_append]
  rfl

theorem readLine_add (number lines : Nat) (line : Except ReadFailure String) :
    readLine (number + lines) line = (readLine number line).mapError (.later lines) := by
  cases line with
  | error why => rfl
  | ok text =>
    simp only [readLine]
    cases parseLine text <;> rfl

theorem readLines_add (number lines : Nat) (xs : List (Except ReadFailure String)) :
    readLines (number + lines) xs = (readLines number xs).mapError (.later lines) := by
  induction xs generalizing number with
  | nil => rfl
  | cons x xs ih =>
    have hrest := ih (number + 1)
    rw [Nat.add_right_comm, readLines, readLines] at hrest
    simp only [readLines, List.zipIdx_cons, List.map_cons, readLine_add number lines x]
    match readLine number x with
    | .error why => rfl
    | .ok none => exact hrest
    | .ok (some r) =>
      simp only [Except.mapError, collect] at hrest ⊢
      rw [hrest]
      cases collect ((xs.zipIdx (number + 1)).map fun (line, number) => readLine number line) <;> rfl

/-- Reading goes line by line and the first error wins: nothing that follows whole lines changes how
they are read, and what follows them is read as a file by itself, but for its line numbers. -/
theorem parse_append {a : List UInt8} (ha : EndsLine a) (b : List UInt8) :
    parse (a ++ b) =
      match parse a with
      | .error why => .error why
      | .ok ra =>
        match parse b with
        | .error why => .error (why.later (a.count 10))
        | .ok rb => .ok (ra ++ rb) := by
  have happend : parse (a ++ b) = parse a >>= fun ra =>
      ((parse b).mapError (.later (a.count 10))).map (ra ++ ·) := by
    calc parse (a ++ b)
        = readLines 1 ((Stream.ofBytes a).lines ++ (Stream.ofBytes b).lines) :=
          congrArg (readLines 1) (Stream.lines_append_lines ha b none)
      _ = readLines 1 (Stream.ofBytes a).lines >>= fun ra =>
            (readLines (1 + a.count 10) (Stream.ofBytes b).lines).map (ra ++ ·) := by
          rw [readLines_append, Stream.length_lines ha]
      _ = _ := by
          rw [readLines_add]
          rfl
  rw [happend]
  cases parse a with
  | error why => rfl
  | ok ra => cases parse b <;> rfl

def twoLines : List UInt8 := "# spans\na\t1\t2\r\n".toUTF8.data.toList

theorem parse_append_later :
    parse (twoLines ++ "\nb\tx\t2".toUTF8.data.toList) =
        .error (.line 4 (.notAnOffset "x" .invalidDigit)) ∧
      parse (twoLines ++ [98, 9, 255]) = .error (.read .notUtf8) ∧
      parse (twoLines ++ "b\t3\t4".toUTF8.data.toList) =
        .ok [⟨"a", .clamp 1, .clamp 2, none⟩, ⟨"b", .clamp 3, .clamp 4, none⟩] := by
  have ha : EndsLine twoLines := by decide +kernel
  have hwhole : parse twoLines = .ok [⟨"a", .clamp 1, .clamp 2, none⟩] := by decide +kernel
  have hfails : parse "\nb\tx\t2".toUTF8.data.toList =
      .error (.line 2 (.notAnOffset "x" .invalidDigit)) := by decide +kernel
  have hbytes : parse [98, 9, 255] = .error (.read .notUtf8) := by decide +kernel
  have hmore : parse "b\t3\t4".toUTF8.data.toList = .ok [⟨"b", .clamp 3, .clamp 4, none⟩] := by
    decide +kernel
  have hcount : twoLines.count 10 = 2 := by decide +kernel
  refine ⟨?_, ?_, ?_⟩
  · rw [parse_append ha, hwhole, hfails, hcount]
    rfl
  · rw [parse_append ha, hwhole, hbytes]
    rfl
  · rw [parse_append ha, hwhole, hmore]
    rfl

end IntervalIndex.Records
