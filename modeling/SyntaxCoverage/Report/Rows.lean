import SyntaxCoverage.Report.Basic

/-!
Branches as flat rows, the form in which interpreters report them: a tag, an id and four numbers
for the span. Clauses of a case share the tag, so their ids alone tell them apart.
-/

namespace SyntaxCoverage

structure Row where
  tag : String
  id : Nat
  firstLine : Nat
  firstColumn : Nat
  lastLine : Nat
  lastColumn : Nat
deriving DecidableEq, Inhabited

namespace Row

def order : Row → Row → Ordering :=
  compareLex (compareOn tag) (compareLex (compareOn id) (compareLex (compareOn firstLine)
    (compareLex (compareOn firstColumn) (compareLex (compareOn lastLine) (compareOn lastColumn)))))

instance : Ord Row := ⟨order⟩

instance : Std.TransOrd Row := by
  show Std.TransCmp order
  unfold order
  infer_instance

instance : Std.LawfulEqOrd Row where
  compare_self {a} := by
    show order a a = .eq
    simp [order, compareLex, compareOn]
  eq_of_compare {a b} h := by
    have h : order a b = .eq := h
    simp only [order, compareLex, compareOn, Ordering.then_eq_eq,
      Std.LawfulEqCmp.compare_eq_iff_eq] at h
    obtain ⟨h1, h2, h3, h4, h5, h6⟩ := h
    cases a
    cases b
    simp_all

def ofSpan (tag : String) (id : Nat) (s : Span) : Row :=
  ⟨tag, id, s.first.line, s.first.column, s.last.line, s.last.column⟩

end Row

namespace Branch

def Key.row (k : Key) : Row := .ofSpan k.kind.tag k.id k.span

def Outcome.row (o : Outcome) : Row := .ofSpan o.label.tag o.id o.span

def Entry.rows (e : Entry) : SortedMap Row Nat :=
  .ofList (e.outcomes.map fun o => (o.row, o.hits))

end Branch

def Report.rows (r : Report) : SortedMap Row (SortedMap Row Nat) :=
  .ofList (r.branches.map fun e => (e.key.row, e.rows))

end SyntaxCoverage
