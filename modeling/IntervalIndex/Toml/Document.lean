import IntervalIndex.Toml.Quoted

namespace IntervalIndex.Toml

def skipSpace (cs : List Char) : List Char := cs.dropWhile isSpace

def skipComment : List Char → List Char
  | '#' :: cs => cs.dropWhile isText
  | cs => cs

def lineEnd? (cs : List Char) : Option (List Char) :=
  match skipComment (skipSpace cs) with
  | [] => some []
  | cs => newline? cs

def skipGap : Nat → List Char → List Char
  | 0, cs => cs
  | n + 1, cs =>
    let cs := skipSpace cs
    match newline? (skipComment cs) with
    | some cs => skipGap n cs
    | none => cs

def isBareKeyChar (c : Char) : Bool :=
  isDigit c || ('a' ≤ c && c ≤ 'z') || ('A' ≤ c && c ≤ 'Z') || c == '_' || c == '-'

def simpleKey? (cs : List Char) : Option (String × List Char) :=
  match cs with
  | '"' :: cs => (basic (cs.length + 1) cs).map fun (s, cs) => (String.ofList s, cs)
  | '\'' :: cs => (literal cs).map fun (s, cs) => (String.ofList s, cs)
  | cs =>
    let (key, rest) := cs.span isBareKeyChar
    if key.isEmpty then none else some (String.ofList key, rest)

def keyParts? : Nat → List Char → Option (List String × List Char)
  | 0, _ => none
  | n + 1, cs => do
    let (key, cs) ← simpleKey? cs
    match skipSpace cs with
    | '.' :: cs =>
      let (keys, cs) ← keyParts? n (skipSpace cs)
      return (key :: keys, cs)
    | cs => return ([key], cs)

/-- How deep values may be nested, and one more than the parts that a key may have. -/
def nestingLimit : Nat := 80

def key? (cs : List Char) : Option ((List String × String) × List Char) := do
  let (keys, cs) ← keyParts? (nestingLimit - 1) cs
  let key ← keys.getLast?
  return ((keys.dropLast, key), cs)

def elements? (value? : List Char → Option (Value × List Char)) :
    Nat → List Char → Option (List Value × List Char)
  | 0, _ => none
  | n + 1, cs =>
    match skipGap (cs.length + 1) cs with
    | ']' :: cs => some ([], cs)
    | cs => do
      let (v, cs) ← value? cs
      match skipGap (cs.length + 1) cs with
      | ',' :: cs =>
        let (vs, cs) ← elements? value? n cs
        return (v :: vs, cs)
      | ']' :: cs => return ([v], cs)
      | _ => none

def entry? (value? : List Char → Option (Value × List Char)) (cs : List Char) :
    Option (((List String × String) × Value) × List Char) := do
  let (key, cs) ← key? (skipSpace cs)
  let (v, cs) ← value? (skipSpace (← skip? '=' cs))
  return ((key, v), cs)

def entries? (value? : List Char → Option (Value × List Char)) :
    Nat → Entries → List Char → Option (Entries × List Char)
  | 0, _, _ => none
  | n + 1, entries, cs => do
    let (((path, key), v), cs) ← entry? value? cs
    let entries ← entries.insert path key v
    match skipSpace cs with
    | ',' :: cs => entries? value? n entries cs
    | '}' :: cs => return (entries, cs)
    | _ => none

def scalarValue? (cs : List Char) : Option (Value × List Char) :=
  match cs with
  | '"' :: _ | '\'' :: _ => (quoted? cs).map fun (s, cs) => (.string (String.ofList s), cs)
  | cs =>
    let (w, rest) := word cs
    (scalar? w).map fun v => (v, rest)

/-- A value in which so many levels may be nested. -/
def value? : Nat → List Char → Option (Value × List Char)
  | 0, cs => match cs with
    | '[' :: _ | '{' :: _ => none
    | cs => scalarValue? cs
  | depth + 1, cs => match cs with
    | '[' :: cs => (elements? (value? depth) (cs.length + 1) cs).map fun (vs, cs) => (.array vs, cs)
    | '{' :: cs =>
      match skipSpace cs with
      | '}' :: cs => some (.table .inline [], cs)
      | cs => (entries? (value? depth) (cs.length + 1) [] cs).map fun (es, cs) => (.table .inline es, cs)
    | cs => scalarValue? cs

/-- The document so far, and the path to the table that entries go into. -/
structure Draft where
  root : Entries
  current : List String

namespace Draft

def addEntry (d : Draft) (path : List String) (key : String) (v : Value) : Option Draft :=
  (d.root.atPath false (fun _ entries => entries.insert path key v) d.current .header).map
    fun root => { d with root }

def openTable (d : Draft) (path : List String) (key : String) : Option Draft :=
  (d.root.openTable path key).map fun root => ⟨root, path ++ [key]⟩

def openElement (d : Draft) (path : List String) (key : String) : Option Draft :=
  (d.root.openElement path key).map fun root => ⟨root, path ++ [key]⟩

/-- One line, or as many as its value takes. -/
def line? (d : Draft) (cs : List Char) : Option (Draft × List Char) :=
  match cs with
  | '[' :: '[' :: cs => do
    let ((path, key), cs) ← key? (skipSpace cs)
    let cs ← lineEnd? (← skip? ']' (← skip? ']' cs))
    return (← d.openElement path key, cs)
  | '[' :: cs => do
    let ((path, key), cs) ← key? (skipSpace cs)
    let cs ← lineEnd? (← skip? ']' cs)
    return (← d.openTable path key, cs)
  | cs =>
    match lineEnd? cs with
    | some cs => some (d, cs)
    | none => do
      let (((path, key), v), cs) ← entry? (value? (nestingLimit - 1)) cs
      return (← d.addEntry path key v, ← lineEnd? cs)

def lines? : Nat → Draft → List Char → Option Draft
  | _, d, [] => some d
  | 0, _, _ => none
  | n + 1, d, cs => do
    let (d, cs) ← d.line? (skipSpace cs)
    lines? n d cs

end Draft

def skipMark : List Char → List Char
  | c :: cs => if c.toNat = 0xFEFF then cs else c :: cs
  | [] => []

def parse? (text : String) : Option Entries :=
  let cs := skipMark text.toList
  (Draft.lines? (cs.length + 1) ⟨[], []⟩ cs).map (·.root)

end IntervalIndex.Toml
