import IntervalIndex.Position
import IntervalIndex.Toml.Value

namespace IntervalIndex.Toml

def isDigit (c : Char) : Bool := '0' ≤ c && c ≤ '9'

def hexValue (c : Char) : Nat :=
  if isDigit c then c.toNat - '0'.toNat
  else if 'a' ≤ c ∧ c ≤ 'f' then c.toNat - 'a'.toNat + 10
  else c.toNat - 'A'.toNat + 10

def isHexDigit (c : Char) : Bool := isDigit c || ('a' ≤ c && c ≤ 'f') || ('A' ≤ c && c ≤ 'F')

def isNumeral (ok : Char → Bool) : List Char → Bool
  | [] => false
  | [c] => ok c
  | c :: '_' :: cs => ok c && isNumeral ok cs
  | c :: cs => ok c && isNumeral ok cs

def numeralValue (base : Nat) (cs : List Char) : Nat :=
  (cs.filter (· != '_')).foldl (fun n c => n * base + hexValue c) 0

def isDecimal (cs : List Char) : Bool :=
  isNumeral isDigit cs && (cs == ['0'] || cs.head? != some '0')

def signed : List Char → Bool × List Char
  | '-' :: cs => (true, cs)
  | '+' :: cs => (false, cs)
  | cs => (false, cs)

def integerOf (negative : Bool) (n : Nat) : Option Value :=
  ((Pos.ofInt? (if negative then -(n : Int) else n) : Option (Pos .i64))).map fun p => .integer p.val

def based (base : Nat) (ok : Char → Bool) (cs : List Char) : Option Value :=
  if isNumeral ok cs then integerOf false (numeralValue base cs) else none

def integer? : List Char → Option Value
  | '0' :: 'x' :: cs => based 16 isHexDigit cs
  | '0' :: 'o' :: cs => based 8 (fun c => '0' ≤ c && c ≤ '7') cs
  | '0' :: 'b' :: cs => based 2 (fun c => c == '0' || c == '1') cs
  | cs =>
    let (negative, digits) := signed cs
    if isDecimal digits then integerOf negative (numeralValue 10 digits) else none

/-- A number of so many digits, times a power of ten, rounds to no finite double. The sizes for which
this is plain are settled without the powers. -/
def isInfinite (mantissa digits : Nat) (exponent : Int) : Bool :=
  let bound : Nat := Nat.pow 2 1024 - Nat.pow 2 970
  if mantissa = 0 ∨ digits + exponent < 300 then false
  else if 400 < exponent then true
  else if 0 ≤ exponent then bound ≤ mantissa * Nat.pow 10 exponent.toNat
  else bound * Nat.pow 10 (-exponent).toNat ≤ mantissa

def exponent? : List Char → Option Int
  | [] => some 0
  | c :: cs =>
    let (negative, digits) := signed cs
    if (c == 'e' || c == 'E') && isNumeral isDigit digits then
      let n : Int := numeralValue 10 digits
      some (if negative then -n else n)
    else none

def isDigitOrGap (c : Char) : Bool := isDigit c || c == '_'

def float? (word : List Char) : Option Value :=
  let (negative, cs) := signed word
  if cs == "inf".toList || cs == "nan".toList then some .float
  else
    let (whole, rest) := cs.span isDigitOrGap
    if !isDecimal whole then none
    else
      let (fraction, rest) := match rest with
        | '.' :: r => ((r.span isDigitOrGap).1, (r.span isDigitOrGap).2)
        | r => ([], r)
      let pointed := (cs.drop whole.length).head? == some '.'
      if pointed && !isNumeral isDigit fraction || !pointed && rest.isEmpty then none
      else
        match exponent? rest with
        | none => none
        | some e =>
          let digits := (whole ++ fraction).filter (· != '_')
          let places := (fraction.filter (· != '_')).length
          if !negative && isInfinite (numeralValue 10 digits) digits.length (e - places) then none
          else some .float

def digits? (width : Nat) (cs : List Char) : Option (Nat × List Char) :=
  let ds := cs.take width
  if ds.length = width && ds.all isDigit then some (numeralValue 10 ds, cs.drop width) else none

def skip? (c : Char) : List Char → Option (List Char)
  | d :: cs => if c = d then some cs else none
  | [] => none

def daysIn (year month : Nat) : Nat :=
  if month = 2 then
    if year % 4 = 0 ∧ (year % 100 ≠ 0 ∨ year % 400 = 0) then 29 else 28
  else if month = 4 ∨ month = 6 ∨ month = 9 ∨ month = 11 then 30 else 31

def date? (cs : List Char) : Option (List Char) := do
  let (year, cs) ← digits? 4 cs
  let (month, cs) ← digits? 2 (← skip? '-' cs)
  let (day, cs) ← digits? 2 (← skip? '-' cs)
  if 1 ≤ month ∧ month ≤ 12 ∧ 1 ≤ day ∧ day ≤ daysIn year month then some cs else none

def time? (cs : List Char) : Option (List Char) := do
  let (hour, cs) ← digits? 2 cs
  let (minute, cs) ← digits? 2 (← skip? ':' cs)
  let (second, cs) ← digits? 2 (← skip? ':' cs)
  if 23 < hour ∨ 59 < minute ∨ 60 < second then none
  else match cs with
    | '.' :: r => if (r.takeWhile isDigit).isEmpty then none else some (r.dropWhile isDigit)
    | r => some r

def isZone : List Char → Bool
  | [] | ['Z'] | ['z'] => true
  | c :: cs =>
    (c == '+' || c == '-') && (do
      let (hour, cs) ← digits? 2 cs
      let (minute, cs) ← digits? 2 (← skip? ':' cs)
      return hour ≤ 23 && minute ≤ 59 && cs.isEmpty : Option Bool).getD false

def dateTime? (word : List Char) : Option Value :=
  match date? word with
  | some [] => some .dateTime
  | some (c :: cs) =>
    if c == 'T' || c == 't' || c == ' ' then
      match time? cs with
      | some zone => if isZone zone then some .dateTime else none
      | none => none
    else none
  | none => if time? word == some [] then some .dateTime else none

def scalar? (word : List Char) : Option Value :=
  if word == "true".toList then some (.boolean true)
  else if word == "false".toList then some (.boolean false)
  else (dateTime? word).or ((float? word).or (integer? word))

def isWordChar (c : Char) : Bool :=
  isDigit c || ('a' ≤ c && c ≤ 'z') || ('A' ≤ c && c ≤ 'Z') || c == '_' || c == '+' || c == '-' ||
    c == '.' || c == ':'

/-- A word, and what follows. A date may go on with a time after a space. -/
def word (cs : List Char) : List Char × List Char :=
  let (w, rest) := cs.span isWordChar
  match date? w, rest with
  | some [], ' ' :: r =>
    let (time, after) := r.span isWordChar
    if (time? time).isSome then (w ++ ' ' :: time, after) else (w, rest)
  | _, _ => (w, rest)

end IntervalIndex.Toml
