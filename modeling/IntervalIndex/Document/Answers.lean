import IntervalIndex.Document.Catalog
import IntervalIndex.Records.File

namespace IntervalIndex

open Scratch Records

structure QuerySettings where
  relation : Relation
  firstOnly : Bool
  existsOnly : Bool
deriving DecidableEq, Repr

inductive QueryError where
  | file (why : FileError)
  | search (why : Stop .i64)
deriving DecidableEq, Repr

def Stop.message {T : PosType} : Stop T → String
  | rejected why => why.message
  | fault why => why.message

def QueryError.message : QueryError → String
  | file why => why.message
  | search why => why.message

/-- What has been written, and how many queries there were, or why they ended early. -/
structure Answers where
  text : String
  count : Except QueryError Nat

namespace Answers

def line (q : Record) (known : List String) : String :=
  "\t".intercalate (q.document :: toString q.start :: toString q.length :: known) ++ "\n"

def existsLine (q : Record) (found : Bool) : String := line q [if found then "true" else "false"]

def matchLine (q hit : Record) : String :=
  line q [toString hit.start, toString hit.length, hit.label.getD "."]

end Answers

/-- Answering on its way. The buffer is filled for each query anew, and what has been written stays. -/
structure Answering where
  buffer : String
  written : String
  answered : Nat
  pool : Pool Nat

namespace Answering

def start (pool : Pool Nat) : Answering := ⟨"", "", 0, pool⟩

def clear (a : Answering) : Answering := { a with buffer := "" }

def put (a : Answering) (line : String) : Answering := { a with buffer := a.buffer ++ line }

def write (a : Answering) : Answering := { a with written := a.written ++ a.buffer }

/-- Puts a line for each match of a query, or one line that tells whether there is one. -/
def fill (catalog : Catalog) (o : QuerySettings) (q : Record) (a : Answering) :
    Except (Stop .i64) Answering :=
  if o.existsOnly then
    let (found, pool) := catalog.any q.document q.start q.length o.relation a.pool
    found.map fun found => { a with pool }.put (Answers.existsLine q found)
  else
    let (hits, pool) := catalog.query q.document q.start q.length o.relation o.firstOnly a.pool
    hits.map fun hits => hits.foldl (fun a hit => a.put (Answers.matchLine q hit)) { a with pool }

def query (catalog : Catalog) (o : QuerySettings) (q : Record) (a : Answering) :
    Except (Stop .i64) Answering :=
  (clear { a with answered := a.answered + 1 }).fill catalog o q |>.map write

/-- The first line that fails ends the answers. What was written before stays written. -/
def run (catalog : Catalog) (o : QuerySettings) :
    List (Except FileError (Option Record)) → Answering → Answers
  | [], a => ⟨a.written, .ok a.answered⟩
  | .error why :: _, a => ⟨a.written, .error (.file why)⟩
  | .ok none :: rest, a => run catalog o rest a
  | .ok (some q) :: rest, a =>
    match a.query catalog o q with
    | .error why => ⟨a.written, .error (.search why)⟩
    | .ok a => run catalog o rest a

end Answering

def Answers.ofStream (catalog : Catalog) (o : QuerySettings) (queries : Stream) (pool : Pool Nat) :
    Answers :=
  (Answering.start pool).run catalog o queries.entries

end IntervalIndex
