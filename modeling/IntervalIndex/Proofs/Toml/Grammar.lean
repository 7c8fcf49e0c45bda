import IntervalIndex.Text.Decimal
import IntervalIndex.Toml.Document

namespace IntervalIndex.Toml

def Bare (name : String) : Prop :=
  name.toList ≠ [] ∧ name.toList.all isBareKeyChar = true

instance (name : String) : Decidable (Bare name) := inferInstanceAs (Decidable (_ ∧ _))

def dotted (path : List String) (key : String) : List Char :=
  (path.flatMap fun name => name.toList ++ ['.']) ++ key.toList

/-- A dotted key that needs no quotes and has no more parts than a key may have. -/
structure Named (path : List String) (key : String) : Prop where
  bare_path : ∀ name ∈ path, Bare name
  bare_key : Bare key
  length_lt : path.length + 1 < nestingLimit

def entryText (path : List String) (key : String) (text : List Char) : List Char :=
  dotted path key ++ " = ".toList ++ text

def inlineText (e : String × List Char × Value) : List Char := entryText [] e.1 e.2.1

/-- Integers, booleans and basic texts, as they are written. -/
inductive Scalar : List Char → Value → Prop
  | integer {n : Int} (hmin : PosType.i64.min ≤ n) (hmax : n ≤ PosType.i64.max) :
      Scalar (Text.Decimal.ofInt n) (.integer n)
  | false : Scalar "false".toList (.boolean false)
  | true : Scalar "true".toList (.boolean true)
  | text {cs : List Char} (hcs : ∀ c ∈ cs, isPlain c = true) :
      Scalar ('"' :: (cs ++ ['"'])) (.string (String.ofList cs))

def separated : List (List Char) → List Char
  | [] => []
  | [text] => text
  | text :: texts => text ++ ',' :: ' ' :: separated texts

/-- Values on one line, so many levels deep at most. -/
inductive Writes : Nat → List Char → Value → Prop
  | scalar {depth : Nat} {text : List Char} {v : Value} (h : Scalar text v) : Writes depth text v
  | array {depth : Nat} (elements : List (List Char × Value))
      (h : ∀ e ∈ elements, Writes depth e.1 e.2) :
      Writes (depth + 1) ('[' :: (separated (elements.map (·.1)) ++ [']']))
        (.array (elements.map (·.2)))
  | table {depth : Nat} (entries : List (String × List Char × Value))
      (hkeys : (entries.map (·.1)).Nodup) (hbare : ∀ e ∈ entries, Bare e.1)
      (h : ∀ e ∈ entries, Writes depth e.2.1 e.2.2) :
      Writes (depth + 1) ('{' :: (separated (entries.map inlineText) ++ ['}']))
        (.table .inline (entries.map fun e => (e.1, e.2.2)))

inductive Statement where
  | blank
  | entry (path : List String) (key : String) (v : Value)
  | table (path : List String) (key : String)
  | element (path : List String) (key : String)

namespace Statement

/-- What a statement makes of the document so far, unless it has no place there. -/
def apply : Statement → Draft → Option Draft
  | blank, d => some d
  | entry path key v, d => d.addEntry path key v
  | table path key, d => d.openTable path key
  | element path key, d => d.openElement path key

def isBlank : Statement → Bool
  | blank => true
  | entry .. | table .. | element .. => false

end Statement

inductive Says : List Char → Statement → Prop
  | blank : Says [] .blank
  | comment {cs : List Char} (hcs : ∀ c ∈ cs, isText c = true) : Says ('#' :: cs) .blank
  | entry {path : List String} {key : String} (hkey : Named path key) {text : List Char}
      {v : Value} (hv : Writes (nestingLimit - 1) text v) :
      Says (entryText path key text) (.entry path key v)
  | table {path : List String} {key : String} (hkey : Named path key) :
      Says ('[' :: (dotted path key ++ [']'])) (.table path key)
  | element {path : List String} {key : String} (hkey : Named path key) :
      Says ('[' :: '[' :: (dotted path key ++ [']', ']'])) (.element path key)

structure Line where
  text : List Char
  statement : Statement
  valid : Says text statement

def document (lines : List Line) : List Char := lines.flatMap fun line => line.text ++ ['\n']

def statements (lines : List Line) : List Statement :=
  (lines.map (·.statement)).filter (!·.isBlank)

def applyAll (lines : List Line) (d : Draft) : Option Draft :=
  lines.foldlM (fun d line => line.statement.apply d) d

end IntervalIndex.Toml
