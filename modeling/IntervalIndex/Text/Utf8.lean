namespace IntervalIndex.Text.Utf8

/-- How a character starts: how many bytes follow, and between which bounds the first of them lies. -/
structure Lead where
  following : Nat
  lowest : Nat
  highest : Nat

def lead? (b : Nat) : Option Lead :=
  if b < 0x80 then some ⟨0, 0, 0⟩
  else if b < 0xC2 then none
  else if b < 0xE0 then some ⟨1, 0x80, 0xBF⟩
  else if b = 0xE0 then some ⟨2, 0xA0, 0xBF⟩
  else if b = 0xED then some ⟨2, 0x80, 0x9F⟩
  else if b < 0xF0 then some ⟨2, 0x80, 0xBF⟩
  else if b = 0xF0 then some ⟨3, 0x90, 0xBF⟩
  else if b < 0xF4 then some ⟨3, 0x80, 0xBF⟩
  else if b = 0xF4 then some ⟨3, 0x80, 0x8F⟩
  else none

def leadBits (following b : Nat) : Nat :=
  match following with
  | 0 => b
  | 1 => b % 0x20
  | 2 => b % 0x10
  | _ => b % 8

def replacement : Char := Char.ofNat 0xFFFD

/-- Decodes byte by byte: so many bytes are still to follow, and the next one lies between two bounds.
What cannot be continued becomes one replacement character, and the byte that does not fit is looked
at again as the start of a character. -/
def decode (wanted lowest highest value : Nat) : List UInt8 → List Char
  | [] => if wanted = 0 then [] else [replacement]
  | b :: bs =>
    let b := b.toNat
    let fits := decide (lowest ≤ b ∧ b ≤ highest)
    if wanted ≠ 0 ∧ fits then
      let value := value * 0x40 + b % 0x40
      if wanted = 1 then Char.ofNat value :: decode 0 0 0 0 bs
      else decode (wanted - 1) 0x80 0xBF value bs
    else
      let cut := if wanted = 0 then [] else [replacement]
      cut ++ match lead? b with
        | none => replacement :: decode 0 0 0 0 bs
        | some ⟨0, _, _⟩ => Char.ofNat b :: decode 0 0 0 0 bs
        | some ⟨n, lo, hi⟩ => decode n lo hi (leadBits n b) bs

/-- The text of any bytes. Where they are not UTF-8, replacement characters stand for the longest
pieces that could have begun a character. -/
def lossy (bytes : List UInt8) : String := String.ofList (decode 0 0 0 0 bytes)

end IntervalIndex.Text.Utf8
