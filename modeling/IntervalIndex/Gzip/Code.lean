import IntervalIndex.Gzip.Bits

namespace IntervalIndex.Gzip

/-- A canonical prefix code: how many words there are of each length, and the symbols in the order of
their words. -/
structure Code where
  counts : Array Nat
  symbols : Array Nat
  /-- No word is longer. It is one at least, so that also a code without words asks for a bit. -/
  height : Nat

namespace Code

def longest : Nat := 15

def symbolsOfLength (lengths : List Nat) (length : Nat) : List Nat :=
  lengths.zipIdx.filterMap fun (l, symbol) => if l = length then some symbol else none

/-- The words that a code of these lengths uses up, out of two to the power of `longest`. -/
def used (lengths : List Nat) : Nat :=
  lengths.foldr (fun l words => (if l = 0 then 0 else Nat.pow 2 (longest - l)) + words) 0

def isLone (lengths : List Nat) : Bool :=
  match lengths.filter (· != 0) with
  | [] | [1] => true
  | _ => false

/-- A code must use up all words, unless it may be a lone one. -/
def ofLengths? (lengths : List Nat) (allowLone : Bool) : Option Code :=
  let symbols := (List.range' 1 longest).map (symbolsOfLength lengths)
  if used lengths = Nat.pow 2 longest || allowLone && isLone lengths then
    some ⟨(0 :: symbols.map List.length).toArray, symbols.flatten.toArray, lengths.foldr max 1⟩
  else none

/-- Reads one bit more until the word is among those of its length. Bits that no word begins with are
found out when as many have been read as the longest word has. -/
def symbolFrom (c : Code) : Nat → Nat → Nat → Nat → Bits → Except Trouble (Nat × Bits)
  | 0, _, _, _, _ => .error .corrupt
  | left + 1, word, first, index, b => do
    let (bit, b) ← b.bit
    let word := 2 * word + bit
    let first := 2 * first
    let count := c.counts.getD (c.height - left) 0
    if word < first + count then
      return (c.symbols.getD (index + (word - first)) 0, b)
    else symbolFrom c left word (first + count) (index + count) b

def symbol (c : Code) (b : Bits) : Except Trouble (Nat × Bits) := c.symbolFrom c.height 0 0 0 b

end Code

end IntervalIndex.Gzip
