import SyntaxCoverage.SortedMap

/-!
The ledger of a unit: the next free id, and what is known so far of its lines. Nodes and outcomes
take their ids from one ledger, so no id is given out twice.
-/

namespace SyntaxCoverage

/-- The most runs seen on a line, and whether a node on it is known to have been missed. -/
structure LineMark where
  runs : Nat
  missed : Bool
deriving DecidableEq, Inhabited

structure Ledger where
  nextId : Nat
  lines : SortedMap Nat LineMark
deriving DecidableEq

namespace Ledger

def empty : Ledger := ⟨0, ∅⟩

instance : Inhabited Ledger := ⟨empty⟩

def allocate (l : Ledger) : Nat × Ledger := (l.nextId, { l with nextId := l.nextId + 1 })

def addRuns (l : Ledger) (line runs : Nat) : Ledger :=
  { l with
    lines := l.lines.upsert line fun mark =>
      let mark := mark.getD ⟨0, false⟩
      { mark with runs := max mark.runs runs } }

def markMissed (l : Ledger) (line : Nat) : Ledger :=
  { l with lines := l.lines.upsert line fun mark => { mark.getD ⟨0, false⟩ with missed := true } }

def takeLines (l : Ledger) : SortedMap Nat LineMark × Ledger := (l.lines, { l with lines := ∅ })

end Ledger

end SyntaxCoverage
