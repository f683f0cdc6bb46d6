import SyntaxCoverage.Source.Extent

/-!
Sets of offsets, stored as extents in ascending order. `ofExtents` sorts and merges, `subtract`
cuts holes in one pass over both lists, and `contains` looks an offset up by halving.
-/

namespace SyntaxCoverage

structure OffsetSet where
  extents : List Extent
deriving DecidableEq, Inhabited

namespace OffsetSet

def empty : OffsetSet := ⟨[]⟩

def place (e : Extent) : List Extent → List Extent
  | [] => [e]
  | d :: ds => if (compare e d).isLE then e :: d :: ds else d :: place e ds

def sorted (es : List Extent) : List Extent := es.foldr place []

/-- Merges an ascending list into `last`: extents that overlap or touch become one. -/
def coalesce (last : Extent) : List Extent → List Extent
  | [] => [last]
  | e :: rest =>
    if e.start ≤ last.stop then coalesce ⟨last.start, max last.stop e.stop⟩ rest
    else last :: coalesce e rest

def ofExtents (es : List Extent) : OffsetSet :=
  match sorted (es.filter fun e => !e.isEmpty) with
  | [] => empty
  | e :: rest => ⟨coalesce e rest⟩

def size (s : OffsetSet) : Nat := (s.extents.map Extent.length).foldr (· + ·) 0

def isEmpty (s : OffsetSet) : Bool := s.extents.isEmpty

def bisectFrom (p : Nat → Bool) : Nat → Nat → Nat → Nat
  | 0, base, _ => base
  | steps + 1, base, size =>
    if size ≤ 1 then
      if size = 1 ∧ p base then base + 1 else base
    else if p (base + size / 2) then bisectFrom p steps (base + size / 2) (size - size / 2)
    else bisectFrom p steps base (size - size / 2)

/-- The first index below `size` where `p` fails, or `size`, found by halving. This is right when
`p` holds on a front part of the indices only. -/
def bisect (p : Nat → Bool) (size : Nat) : Nat := bisectFrom p (size + 1) 0 size

def stopsBy (s : OffsetSet) (offset i : Nat) : Bool :=
  match s.extents[i]? with
  | some e => decide (e.stop ≤ offset)
  | none => false

def contains (s : OffsetSet) (offset : Nat) : Bool :=
  match s.extents[bisect (s.stopsBy offset) s.extents.length]? with
  | some e => e.contains offset
  | none => false

def between (start stop : Nat) : List Extent :=
  if start < stop then [⟨start, stop⟩] else []

/-- What the holes leave of `cursor..stop`, and the holes that reach beyond `stop`. -/
def carve (cursor stop : Nat) : List Extent → List Extent × List Extent
  | [] => (between cursor stop, [])
  | hole :: holes =>
    if hole.stop ≤ cursor then carve cursor stop holes
    else if stop ≤ hole.start then (between cursor stop, hole :: holes)
    else if stop < hole.stop then
      (between cursor hole.start ++ between (max cursor hole.stop) stop, hole :: holes)
    else
      let (pieces, rest) := carve (max cursor hole.stop) stop holes
      (between cursor hole.start ++ pieces, rest)

def carveAll : List Extent → List Extent → List Extent
  | [], _ => []
  | e :: es, holes =>
    let (pieces, rest) := carve e.start e.stop holes
    pieces ++ carveAll es rest

def subtract (s holes : OffsetSet) : OffsetSet := ⟨carveAll s.extents holes.extents⟩

end OffsetSet

def Extent.without (e : Extent) (others : List Extent) : OffsetSet :=
  (OffsetSet.ofExtents [e]).subtract (OffsetSet.ofExtents others)

end SyntaxCoverage
