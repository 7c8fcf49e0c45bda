import IntervalIndex.Text.Decimal

namespace IntervalIndex

/-- Why an operation stops without an answer: its caller broke a precondition. -/
inductive Fault where
  /-- A length was asked for that its position type cannot hold. -/
  | lengthOverflow
  /-- Values handed over as sorted were not. -/
  | unsortedValues
  | outOfBounds (size index : Nat)
deriving DecidableEq, Repr

def Fault.message : Fault → String
  | lengthOverflow => "attempt to subtract with overflow"
  | unsortedValues => "values passed to build_sorted must be ordered by start"
  | outOfBounds size index =>
    "index out of bounds: the len is " ++ String.ofList (Text.Decimal.ofNat size) ++
      " but the index is " ++ String.ofList (Text.Decimal.ofNat index)

end IntervalIndex
