import IntervalIndex.Scratch.Pool

namespace IntervalIndex.Scratch

inductive Action (ν : Type) where
  | acquire (name : String)
  | unpooled (name : String)
  | push (name : String) (x : ν)
  | pushAll (name : String) (xs : List ν)
  | pop (name : String)
  | clear (name : String)
  | reserveExact (name : String) (more : Nat)
  | drop (name : String)
  | configure (limits : Limits)
deriving Repr

structure Bench (ν : Type) where
  pool : Pool ν
  held : List (String × Stack ν)

namespace Bench

variable {ν : Type}

def start (pool : Pool ν) : Bench ν := ⟨pool, []⟩

def stack? (b : Bench ν) (name : String) : Option (Stack ν) := b.held.lookup name

def contents (b : Bench ν) (name : String) : Array ν :=
  ((b.stack? name).map (·.buffer.contents)).getD #[]

def drop (b : Bench ν) (name : String) : Bench ν :=
  match b.stack? name with
  | some s => ⟨s.giveBack b.pool, b.held.filter (·.1 != name)⟩
  | none => b

/-- The stack takes the name over, and one that had it before is dropped. -/
def hold (b : Bench ν) (name : String) (s : Stack ν) : Bench ν :=
  let b := b.drop name
  { b with held := (name, s) :: b.held }

def update (b : Bench ν) (name : String) (f : Buffer ν → Buffer ν) : Bench ν :=
  { b with held := b.held.map fun (n, s) =>
    if n = name then (n, { s with buffer := f s.buffer }) else (n, s) }

def step (b : Bench ν) : Action ν → Bench ν
  | .acquire name =>
    let (buffer, pool) := b.pool.acquire
    hold { b with pool } name ⟨buffer, true⟩
  | .unpooled name => b.hold name .unpooled
  | .push name x => b.update name (·.push x)
  | .pushAll name xs => b.update name (·.pushAll xs)
  | .pop name => b.update name Buffer.pop
  | .clear name => b.update name Buffer.clear
  | .reserveExact name more => b.update name (·.reserveExact more)
  | .drop name => b.drop name
  | .configure limits => { b with pool := b.pool.configure limits }

def run (b : Bench ν) (actions : List (Action ν)) : Bench ν := actions.foldl step b

end Bench

end IntervalIndex.Scratch
