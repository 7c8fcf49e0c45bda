import IntervalIndex.Gzip.Code

namespace IntervalIndex.Gzip

structure Inflated where
  out : Array UInt8
  rest : Except Trouble Bits

namespace Inflate

/-- Repeats bytes from some distance back; before the first byte there are zeros. -/
def copy (distance : Nat) : Nat → Array UInt8 → Array UInt8
  | 0, out => out
  | n + 1, out =>
    copy distance n (out.push (if distance ≤ out.size then out.getD (out.size - distance) 0 else 0))

def lengthBases : Array (Nat × Nat) :=
  #[(3, 0), (4, 0), (5, 0), (6, 0), (7, 0), (8, 0), (9, 0), (10, 0), (11, 1), (13, 1), (15, 1),
    (17, 1), (19, 2), (23, 2), (27, 2), (31, 2), (35, 3), (43, 3), (51, 3), (59, 3), (67, 4),
    (83, 4), (99, 4), (115, 4), (131, 5), (163, 5), (195, 5), (227, 5), (258, 0)]

def distanceBases : Array (Nat × Nat) :=
  #[(1, 0), (2, 0), (3, 0), (4, 0), (5, 1), (7, 1), (9, 2), (13, 2), (17, 3), (25, 3), (33, 4),
    (49, 4), (65, 5), (97, 5), (129, 6), (193, 6), (257, 7), (385, 7), (513, 8), (769, 8),
    (1025, 9), (1537, 9), (2049, 10), (3073, 10), (4097, 11), (6145, 11), (8193, 12), (12289, 12),
    (16385, 13), (24577, 13)]

def extended (bases : Array (Nat × Nat)) (symbol : Nat) (b : Bits) : Except Trouble (Nat × Bits) :=
  match bases[symbol]? with
  | none => .error .corrupt
  | some (base, width) => do
    let (extra, b) ← b.number width
    return (base + extra, b)

inductive Item where
  | literal (byte : UInt8)
  | repetition (length distance : Nat)
  | blockEnd

def item (literals distances : Code) (b : Bits) : Except Trouble (Item × Bits) := do
  let (symbol, b) ← literals.symbol b
  if symbol < 256 then return (.literal symbol.toUInt8, b)
  else if symbol = 256 then return (.blockEnd, b)
  else
    let (length, b) ← extended lengthBases (symbol - 257) b
    let (symbol, b) ← distances.symbol b
    let (distance, b) ← extended distanceBases symbol b
    return (.repetition length distance, b)

/-- The items of a coded block. Each takes a bit at least, which bounds their number. -/
def items (literals distances : Code) : Nat → Array UInt8 → Bits → Inflated
  | 0, out, _ => ⟨out, .error .truncated⟩
  | fuel + 1, out, b =>
    match item literals distances b with
    | .error e => ⟨out, .error e⟩
    | .ok (.literal byte, b) => items literals distances fuel (out.push byte) b
    | .ok (.repetition length distance, b) =>
      items literals distances fuel (copy distance length out) b
    | .ok (.blockEnd, b) => ⟨out, .ok b⟩

def storedBytes : Nat → Array UInt8 → Bits → Inflated
  | 0, out, b => ⟨out, .ok b⟩
  | n + 1, out, b =>
    match b.number 8 with
    | .error e => ⟨out, .error e⟩
    | .ok (byte, b) => storedBytes n (out.push byte.toUInt8) b

def stored (out : Array UInt8) (b : Bits) : Inflated :=
  match sizes with
  | .error e => ⟨out, .error e⟩
  | .ok (size, inverse, b) =>
    if size + inverse = 0xFFFF then storedBytes size out b else ⟨out, .error .corrupt⟩
where
  sizes : Except Trouble (Nat × Nat × Bits) := do
    let (size, b) ← b.align.number 16
    let (inverse, b) ← b.number 16
    return (size, inverse, b)

def fixedLiterals : List Nat :=
  List.replicate 144 8 ++ List.replicate 112 9 ++ List.replicate 24 7 ++ List.replicate 8 8

def fixedDistances : List Nat := List.replicate 32 5

def codesOf? (literals distances : List Nat) : Except Trouble (Code × Code) :=
  match Code.ofLengths? literals true, Code.ofLengths? distances true with
  | some l, some d => .ok (l, d)
  | _, _ => .error .corrupt

def lengthSymbols : List Nat := [16, 17, 18, 0, 8, 7, 9, 6, 10, 5, 11, 4, 12, 3, 13, 2, 14, 1, 15]

def smallNumbers : Nat → Bits → Except Trouble (List Nat × Bits)
  | 0, b => .ok ([], b)
  | n + 1, b => do
    let (x, b) ← b.number 3
    let (xs, b) ← smallNumbers n b
    return (x :: xs, b)

/-- The lengths of both codes, the last one first. A symbol past the lengths repeats one. -/
def codeLengths (code : Code) (count : Nat) :
    Nat → List Nat → Bits → Except Trouble (List Nat × Bits)
  | 0, _, _ => .error .corrupt
  | fuel + 1, seen, b =>
    if seen.length = count then .ok (seen, b)
    else if count < seen.length then .error .corrupt
    else do
      let (symbol, b) ← code.symbol b
      if symbol < 16 then codeLengths code count fuel (symbol :: seen) b
      else
        let (value, base, width) ← match symbol, seen with
          | 16, [] => .error .corrupt
          | 16, last :: _ => .ok (last, 3, 2)
          | 17, _ => .ok (0, 3, 3)
          | _, _ => .ok (0, 11, 7)
        let (extra, b) ← b.number width
        codeLengths code count fuel (List.replicate (base + extra) value ++ seen) b

def dynamicCodes (b : Bits) : Except Trouble ((Code × Code) × Bits) := do
  let (literals, b) ← b.number 5
  let (distances, b) ← b.number 5
  let (lengths, b) ← b.number 4
  if 286 < literals + 257 ∨ 30 < distances + 1 then .error .corrupt
  else
    let (own, b) ← smallNumbers (lengths + 4) b
    let written := lengthSymbols.zip own
    let ordered := (List.range 19).map fun symbol => (written.lookup symbol).getD 0
    match Code.ofLengths? ordered false with
    | none => .error .corrupt
    | some code =>
      let count := literals + 257 + (distances + 1)
      let (seen, b) ← codeLengths code count (count + 1) [] b
      let all := seen.reverse
      let codes ← codesOf? (all.take (literals + 257)) (all.drop (literals + 257))
      return (codes, b)

def coded (codes : Except Trouble ((Code × Code) × Bits)) (out : Array UInt8) : Inflated :=
  match codes with
  | .error e => ⟨out, .error e⟩
  | .ok ((literals, distances), b) => items literals distances (b.remaining + 1) out b

def block (kind : Nat) (out : Array UInt8) (b : Bits) : Inflated :=
  match kind with
  | 0 => stored out b
  | 1 => coded ((codesOf? fixedLiterals fixedDistances).map fun codes => (codes, b)) out
  | 2 => coded (dynamicCodes b) out
  | _ => ⟨out, .error .corrupt⟩

def blocks : Nat → Array UInt8 → Bits → Inflated
  | 0, out, _ => ⟨out, .error .truncated⟩
  | fuel + 1, out, b =>
    match b.number 1 >>= fun (last, b) => (b.number 2).map fun (kind, b) => (last, kind, b) with
    | .error e => ⟨out, .error e⟩
    | .ok (last, kind, b) =>
      match block kind out b with
      | ⟨out, .error e⟩ => ⟨out, .error e⟩
      | ⟨out, .ok b⟩ => if last = 1 then ⟨out, .ok b⟩ else blocks fuel out b

end Inflate

def inflate (b : Bits) : Inflated := Inflate.blocks (b.remaining + 1) #[] b

end IntervalIndex.Gzip
