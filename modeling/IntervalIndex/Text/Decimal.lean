namespace IntervalIndex.Text.Decimal

def digit (d : Nat) : Char :=
  Char.ofNat ('0'.toNat + d)

def ofNat (n : Nat) : List Char :=
  if n < 10 then [digit n] else ofNat (n / 10) ++ [digit (n % 10)]

def ofInt : Int → List Char
  | .ofNat n => ofNat n
  | .negSucc n => '-' :: ofNat (n + 1)

def digitValue? (c : Char) : Option Nat :=
  if '0' ≤ c ∧ c ≤ '9' then some (c.toNat - '0'.toNat) else none

end IntervalIndex.Text.Decimal
