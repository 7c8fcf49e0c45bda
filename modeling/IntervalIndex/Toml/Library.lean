import IntervalIndex.Toml.Value

namespace IntervalIndex.Toml

/-- How the values of a type stand in a document. -/
structure Codec (α : Type) where
  read? : Value → Option α
  write : α → Value

/-- A field as it is declared. Only one with a default may be missing from what is read. -/
structure Field (α : Type) where
  name : String
  codec : Codec α
  default? : Option α

def Field.read? {α : Type} (f : Field α) : Option Value → Option α
  | none => f.default?
  | some v => f.codec.read? v

structure Declaration (ρ α β : Type) where
  first : Field α
  second : Field β
  make : α → β → ρ
  parts : ρ → α × β

/-- What takes texts to documents and back, and derives from the declaration of a type how its values
stand in a document. -/
structure Library where
  read? : String → Option Entries
  write? : Entries → Option String
  natural : Codec Nat
  boolean : Codec Bool
  /-- One of several values, by its name. -/
  choice {α : Type} (all : List α) (name : α → String) : Codec α
  record {ρ α β : Type} (d : Declaration ρ α β) : Codec ρ

end IntervalIndex.Toml
