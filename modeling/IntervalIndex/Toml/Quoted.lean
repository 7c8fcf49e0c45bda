import IntervalIndex.Toml.Scalar

namespace IntervalIndex.Toml

def isText (c : Char) : Bool := c == '\t' || (0x20 ≤ c.toNat && c.toNat != 0x7F)

def isPlain (c : Char) : Bool := isText c && c != '"' && c != '\\'

def isSpace (c : Char) : Bool := c == ' ' || c == '\t'

def newline? : List Char → Option (List Char)
  | '\n' :: cs => some cs
  | '\r' :: '\n' :: cs => some cs
  | _ => none

def codePoint? (width : Nat) (cs : List Char) : Option (Char × List Char) :=
  let ds := cs.take width
  let n := numeralValue 16 ds
  if ds.length = width ∧ ds.all isHexDigit ∧ n.isValidChar then some (Char.ofNat n, cs.drop width)
  else none

def escape? : List Char → Option (Char × List Char)
  | 'b' :: cs => some ('\x08', cs)
  | 't' :: cs => some ('\t', cs)
  | 'n' :: cs => some ('\n', cs)
  | 'f' :: cs => some ('\x0c', cs)
  | 'r' :: cs => some ('\r', cs)
  | '"' :: cs => some ('"', cs)
  | '\\' :: cs => some ('\\', cs)
  | 'u' :: cs => codePoint? 4 cs
  | 'U' :: cs => codePoint? 8 cs
  | _ => none

abbrev Quoted := Option (List Char × List Char)

def Quoted.cons (c : Char) (q : Quoted) : Quoted := q.map fun (s, rest) => (c :: s, rest)

def basic : Nat → List Char → Quoted
  | 0, _ | _, [] => none
  | _ + 1, '"' :: cs => some ([], cs)
  | n + 1, '\\' :: cs => (escape? cs).bind fun (c, cs) => Quoted.cons c (basic n cs)
  | n + 1, c :: cs => if isText c then .cons c (basic n cs) else none

def literal : List Char → Quoted
  | [] => none
  | '\'' :: cs => some ([], cs)
  | c :: cs => if isText c then .cons c (literal cs) else none

/-- Up to two more quotes belong to the text that three of them end. -/
def closing (quote : Char) (cs : List Char) : List Char × List Char :=
  let extra := (cs.take 2).takeWhile (· == quote)
  (extra, cs.drop extra.length)

/-- A backslash at the end of a line swallows it and all space up to the next text. -/
def continued? (cs : List Char) : Option (List Char) :=
  (newline? (cs.dropWhile isSpace)).bind fun cs => skipLines (cs.length + 1) cs
where
  skipLines : Nat → List Char → Option (List Char)
    | 0, _ => none
    | n + 1, cs =>
      let cs := cs.dropWhile isSpace
      match newline? cs with
      | some cs => skipLines n cs
      | none => some cs

def manyBasic : Nat → List Char → Quoted
  | 0, _ | _, [] => none
  | _ + 1, '"' :: '"' :: '"' :: cs => some (closing '"' cs)
  | n + 1, '\\' :: cs =>
    match continued? cs with
    | some cs => manyBasic n cs
    | none => (escape? cs).bind fun (c, cs) => Quoted.cons c (manyBasic n cs)
  | n + 1, c :: cs =>
    match newline? (c :: cs) with
    | some cs => .cons '\n' (manyBasic n cs)
    | none => if isText c then .cons c (manyBasic n cs) else none

def manyLiteral : Nat → List Char → Quoted
  | 0, _ | _, [] => none
  | _ + 1, '\'' :: '\'' :: '\'' :: cs => some (closing '\'' cs)
  | n + 1, c :: cs =>
    match newline? (c :: cs) with
    | some cs => .cons '\n' (manyLiteral n cs)
    | none => if isText c then .cons c (manyLiteral n cs) else none

def skipNewline (cs : List Char) : List Char := (newline? cs).getD cs

def quoted? : List Char → Quoted
  | '"' :: '"' :: '"' :: cs => manyBasic (cs.length + 1) (skipNewline cs)
  | '"' :: cs => basic (cs.length + 1) cs
  | '\'' :: '\'' :: '\'' :: cs => manyLiteral (cs.length + 1) (skipNewline cs)
  | '\'' :: cs => literal cs
  | _ => none

end IntervalIndex.Toml
