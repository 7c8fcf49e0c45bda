import IntervalIndex.Text.Hidden

namespace IntervalIndex.Text.Quoted

def hexDigits (n : Nat) : List Char := Nat.toDigits 16 n

def escape (c : Char) : List Char :=
  if c = '\x00' then ['\\', '0']
  else if c = '\t' then ['\\', 't']
  else if c = '\n' then ['\\', 'n']
  else if c = '\r' then ['\\', 'r']
  else if c = '"' ∨ c = '\\' then ['\\', c]
  else if isHidden c then ['\\', 'u', '\x7b'] ++ hexDigits c.toNat ++ ['\x7d']
  else [c]

/-- A text in double quotes, on one line and with nothing hidden. -/
def quote (s : String) : String := String.ofList ('"' :: s.toList.flatMap escape ++ ['"'])

end IntervalIndex.Text.Quoted
