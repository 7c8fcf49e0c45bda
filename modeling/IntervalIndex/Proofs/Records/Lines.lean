import IntervalIndex.Proofs.Text.Pieces
import IntervalIndex.Records.Line

namespace IntervalIndex

theorem bind_eq_ok {ε α β : Type} {x : Except ε α} {f : α → Except ε β} {b : β}
    (h : x >>= f = .ok b) : ∃ a, x = .ok a ∧ f a = .ok b := by
  cases x with
  | error e => cases h
  | ok a => exact ⟨a, rfl, h⟩

namespace Records

def isFiller (line : String) : Bool := line.toList.all Text.isBlank || isComment line.toList

theorem isBlank_of_isLineEnd {c : Char} (h : isLineEnd c = true) : Text.isBlank c = true := by
  simp only [isLineEnd, Bool.or_eq_true, beq_iff_eq] at h
  obtain rfl | rfl := h <;> rfl

theorem filler_dropTrailing (cs : List Char) :
    ((Text.dropTrailing isLineEnd cs).all Text.isBlank ||
      isComment (Text.dropTrailing isLineEnd cs)) = (cs.all Text.isBlank || isComment cs) := by
  obtain ⟨ends, hcs, hends⟩ := Text.dropTrailing_append isLineEnd cs
  have hblank : ends.all Text.isBlank = true :=
    List.all_eq_true.mpr fun c hc => isBlank_of_isLineEnd (hends c hc)
  conv_rhs => rw [hcs]
  cases Text.dropTrailing isLineEnd cs with
  | nil => simp [hblank]
  | cons c kept => simp [hblank, isComment]

structure ReadFrom (r : Record) (document : List Char) (others : List (List Char)) : Prop where
  document : String.ofList document = r.document
  start : offsetColumn .missingStart others[0]? = .ok r.start
  length : offsetColumn .missingLength others[1]? = .ok r.length
  label : labelColumn others[2]? = r.label
  range : ∃ range, Span.ofLength r.start r.length = .ok range

/-- The document and the other columns of a line, line ends at its end left out. -/
def lineColumns (line : String) : List Char × List (List Char) :=
  columns (Text.dropTrailing isLineEnd line.toList)

theorem parseLine_eq (line : String) : parseLine line =
    if isFiller line then .ok none
    else (do
      let (document, others) := lineColumns line
      let start ← offsetColumn .missingStart others[0]?
      let length ← offsetColumn .missingLength others[1]?
      match Span.ofLength start length with
      | .ok _ => .ok (some ⟨String.ofList document, start, length, labelColumn others[2]?⟩)
      | .error why => .error (.invalidSpan why)) := by
  rw [isFiller, ← filler_dropTrailing]
  rfl

theorem parseLine_of_isFiller {line : String} (h : isFiller line = true) :
    parseLine line = .ok none := by
  rw [parseLine_eq, if_pos h]

theorem parseLine_of_not_isFiller {line : String} {entry : Option Record}
    (h : isFiller line = false) (hline : parseLine line = .ok entry) :
    ∃ r, entry = some r ∧ ReadFrom r (lineColumns line).1 (lineColumns line).2 := by
  rw [parseLine_eq, h, if_neg Bool.false_ne_true] at hline
  obtain ⟨start, hstart, hline⟩ := bind_eq_ok hline
  obtain ⟨length, hlength, hline⟩ := bind_eq_ok hline
  split at hline
  · next range hrange => exact ⟨_, (Except.ok.inj hline).symm, rfl, hstart, hlength, rfl, range, hrange⟩
  · cases hline

theorem parseLine_of_readFrom {line : String} {r : Record} (h : isFiller line = false)
    (hr : ReadFrom r (lineColumns line).1 (lineColumns line).2) :
    parseLine line = .ok (some r) := by
  obtain ⟨document, start, length, label⟩ := r
  obtain ⟨rfl, hstart, hlength, rfl, range, hrange⟩ := hr
  rw [parseLine_eq, h, if_neg Bool.false_ne_true]
  simp only [hstart, hlength, bind, Except.bind, hrange]

theorem parseLine_eq_none_iff {line : String} :
    parseLine line = .ok none ↔ isFiller line = true := by
  refine ⟨fun h => ?_, parseLine_of_isFiller⟩
  cases hfiller : isFiller line with
  | true => rfl
  | false =>
    obtain ⟨r, hr, -⟩ := parseLine_of_not_isFiller hfiller h
    cases hr

theorem isFiller_of_parseLine_some {line : String} {r : Record}
    (h : parseLine line = .ok (some r)) : isFiller line = false := by
  cases hfiller : isFiller line with
  | false => rfl
  | true =>
    rw [parseLine_of_isFiller hfiller] at h
    cases h

theorem readFrom_of_parseLine {line : String} {r : Record} (h : parseLine line = .ok (some r)) :
    ReadFrom r (lineColumns line).1 (lineColumns line).2 := by
  obtain ⟨r', hr, hread⟩ := parseLine_of_not_isFiller (isFiller_of_parseLine_some h) h
  obtain rfl := Option.some.inj hr
  exact hread

end Records

end IntervalIndex
