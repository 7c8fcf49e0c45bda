import IntervalIndex.Text.Decimal
import IntervalIndex.Toml.Document
import IntervalIndex.Toml.Library

namespace IntervalIndex.Toml.Standard

def natural? : Value → Option Nat
  | .integer n => if 0 ≤ n then some n.toNat else none
  | _ => none

def boolean? : Value → Option Bool
  | .boolean b => some b
  | _ => none

def isEmpty : Value → Bool
  | .table _ [] | .array [] => true
  | _ => false

/-- A name, or a table whose only entry is a name with nothing in it. -/
def choice? {α : Type} (all : List α) (name : α → String) : Value → Option α
  | .string s => all.find? (name · == s)
  | .table _ [(s, content)] => if isEmpty content then all.find? (name · == s) else none
  | _ => none

/-- What stands for two fields, by their names or by their places. -/
def fields? (first second : String) : Value → Option (Option Value × Option Value)
  | .table _ entries => some (entries.lookup first, entries.lookup second)
  | .array elements | .tables elements => some (elements[0]?, elements[1]?)
  | .dateTime => some (none, none)
  | _ => none

variable {ρ α β : Type}

def record? (d : Declaration ρ α β) (v : Value) : Option ρ := do
  let (first, second) ← fields? d.first.name d.second.name v
  return d.make (← d.first.read? first) (← d.second.read? second)

def recordValue (d : Declaration ρ α β) (r : ρ) : Value :=
  .table .header [(d.first.name, d.first.codec.write (d.parts r).1),
    (d.second.name, d.second.codec.write (d.parts r).2)]

def scalarText? : Value → Option (List Char)
  | .integer n =>
    if (Pos.ofInt? n : Option (Pos .i64)).isSome then some (Text.Decimal.ofInt n) else none
  | .boolean b => some (if b then "true" else "false").toList
  | .string s => if s.toList.all isPlain then some ('"' :: (s.toList ++ ['"'])) else none
  | _ => none

def entryText? (entry : String × Value) : Option (List Char) := do
  return entry.1.toList ++ " = ".toList ++ (← scalarText? entry.2) ++ ['\n']

def tableText? : String × Value → Option (List Char)
  | (name, .table _ entries) => do
    return '[' :: (name.toList ++ "]\n".toList) ++ (← entries.mapM entryText?).flatten
  | _ => none

def write? (entries : Entries) : Option String := do
  return String.ofList (List.intercalate ['\n'] (← entries.mapM tableText?))

end Standard

def standard : Library where
  read? := parse?
  write? := Standard.write?
  natural := ⟨Standard.natural?, fun n => .integer n⟩
  boolean := ⟨Standard.boolean?, .boolean⟩
  choice all name := ⟨Standard.choice? all name, fun a => .string (name a)⟩
  record d := ⟨Standard.record? d, Standard.recordValue d⟩

end IntervalIndex.Toml
