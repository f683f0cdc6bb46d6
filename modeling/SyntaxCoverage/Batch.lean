import SyntaxCoverage.Analysis.Unit

/-!
Batches: many units under the same settings. Each unit has a ledger and an outcome of its own, so
one that fails leaves the others as they are.
-/

namespace SyntaxCoverage

structure Batch.Item where
  name : String
  outcome : Except Failure Report

structure Batch where
  settings : Settings
  items : List Batch.Item

namespace Batch

def ofSettings (s : Settings) : Batch := ⟨s, []⟩

def add (b : Batch) (name : String) (t : Tree) (r : Recording) : Batch :=
  { b with items := b.items ++ [⟨name, b.settings.analyse name t r⟩] }

def find? (b : Batch) (name : String) : Option (Except Failure Report) :=
  (b.items.find? fun item => item.name == name).map (·.outcome)

def names (b : Batch) : List String := b.items.map (·.name)

def covered (b : Batch) : List (String × Report) :=
  b.items.filterMap fun item => item.outcome.toOption.map fun report => (item.name, report)

def Item.failure? (item : Item) : Option Failure :=
  match item.outcome with
  | .error e => some e
  | .ok _ => none

def abandoned (b : Batch) : List (String × Failure) :=
  b.items.filterMap fun item => item.failure?.map fun e => (item.name, e)

def hasFatal (b : Batch) : Bool := b.abandoned.any fun entry => entry.2.isFatal

def figures (b : Batch) : Figures :=
  b.covered.foldl (fun sum entry => sum.add entry.2.figures) .zero

end Batch

end SyntaxCoverage
