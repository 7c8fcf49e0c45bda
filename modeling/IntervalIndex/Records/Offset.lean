import IntervalIndex.Record
import IntervalIndex.Text.Decimal

namespace IntervalIndex.Records

abbrev Offset := Pos .i64

inductive OffsetError where
  | empty
  | invalidDigit
  | tooLarge
  | tooSmall
deriving DecidableEq, Repr

def OffsetError.message : OffsetError → String
  | empty => "cannot parse integer from empty string"
  | invalidDigit => "invalid digit found in string"
  | tooLarge => "number too large to fit in target type"
  | tooSmall => "number too small to fit in target type"

namespace Offset

/-- Reads digits from left to right, moving away from zero on the side of the sign. What is found
first is reported: a character that is no digit, or a digit for which there is no room. -/
def ofDigits (negative : Bool) : List Char → Offset → Except OffsetError Offset
  | [], value => .ok value
  | c :: cs, value =>
    match Text.Decimal.digitValue? c with
    | none => .error .invalidDigit
    | some d =>
      match Pos.ofInt? (value.val * 10 + if negative then -(d : Int) else d) with
      | some next => ofDigits negative cs next
      | none => .error (if negative then .tooSmall else .tooLarge)

/-- At most one sign and then digits. A sign alone is an invalid digit. -/
def ofChars : List Char → Except OffsetError Offset
  | [] => .error .empty
  | ['+'] | ['-'] => .error .invalidDigit
  | '+' :: cs => ofDigits false cs Pos.zero
  | '-' :: cs => ofDigits true cs Pos.zero
  | cs => ofDigits false cs Pos.zero

end Offset

end IntervalIndex.Records
