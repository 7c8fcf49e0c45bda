import IntervalIndex.Checked

namespace IntervalIndex.Packed

/-- Values on their way to their slots. Everything before the cursor has arrived. -/
structure Arrangement (α : Type) where
  values : Array α
  /-- Where the value in the same place has to go. -/
  slots : Array Nat
  cursor : Nat
  swaps : Nat

namespace Arrangement

variable {α : Type}

def start (values : Array α) (slots : Array Nat) : Arrangement α := ⟨values, slots, 0, 0⟩

/-- Sends the value at the cursor to its slot, in exchange for the one there, or moves the cursor on
when the value has arrived. -/
def step : Arrangement α → Except Fault (Arrangement α)
  | ⟨values, slots, cursor, swaps⟩ =>
    if cursor < values.size then do
      let slot ← Checked.get slots cursor
      if slot = cursor then return ⟨values, slots, cursor + 1, swaps⟩
      else return ⟨← Checked.swap values cursor slot, ← Checked.swap slots cursor slot,
        cursor, swaps + 1⟩
    else return ⟨values, slots, cursor, swaps⟩

def steps : Nat → Arrangement α → Except Fault (Arrangement α)
  | 0, a => .ok a
  | n + 1, a => do steps n (← a.step)

end Arrangement

/-- Moves every value to its slot in place, following the cycles. Where the slots are a permutation,
each swap settles a value for good, so that as many swaps as values and as many moves of the cursor
are enough. -/
def arrange {α : Type} (values : Array α) (slots : Array Nat) : Except Fault (Arrangement α) :=
  let size := values.size
  (Arrangement.start values slots).steps (2 * size)

end IntervalIndex.Packed
