import IntervalIndex.Checked

namespace IntervalIndex.Packed

def leftSlot (slot : Nat) : Nat := 2 * slot + 1

def rightSlot (slot : Nat) : Nat := 2 * slot + 2

/-- The number of full levels, and how many values are left over for the last one. -/
def fullLevels (count : Nat) : Nat × Nat :=
  let full := (count + 1).log2
  (full, count - (Nat.pow 2 full - 1))

/-- The sorted position of a value of the full levels. The values of the last level stand in every
second position, from the first on, until they are used up. -/
def upperPosition (lastLevel k : Nat) : Nat :=
  if k < lastLevel then 2 * k + 1 else k + lastLevel

abbrev Placement := Nat × Nat

def placeLastLevel (full lastLevel : Nat) : List Placement :=
  (List.range lastLevel).map fun k => (2 * k, full + k)

/-- The median of a range goes to the slot, the two halves go below it. -/
def placeFullLevels (lastLevel lo hi slot : Nat) : List Placement :=
  if lo < hi then
    let mid := lo + (hi - lo) / 2
    (upperPosition lastLevel mid, slot) ::
      (placeFullLevels lastLevel lo mid (leftSlot slot) ++
        placeFullLevels lastLevel (mid + 1) hi (rightSlot slot))
  else []
termination_by hi - lo

def placements (count : Nat) : List Placement :=
  let lastLevel := (fullLevels count).2
  let full := count - lastLevel
  placeLastLevel full lastLevel ++ placeFullLevels lastLevel 0 full 0

def targetSlots (count : Nat) : Except Fault (Array Nat) :=
  (placements count).foldlM (fun slots (position, slot) => Checked.set slots position slot)
    (Array.replicate count 0)

end IntervalIndex.Packed
