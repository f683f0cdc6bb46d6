import SyntaxCoverage.Analysis.Paths
import SyntaxCoverage.Arena.Walk
import SyntaxCoverage.Ledger

/-!
Branch entries: one for each located node with alternatives, in post-order. The outcomes of an
entry take their ids from the ledger once all its counts are known.
-/

namespace SyntaxCoverage

namespace Ledger

def number : List Path → Ledger → List Branch.Outcome × Ledger
  | [], l => ([], l)
  | p :: ps, l =>
    let (id, l) := l.allocate
    let (outcomes, l) := number ps l
    (⟨p.label, id, p.span, p.hits⟩ :: outcomes, l)

/-- The entry of a node, `none` for a node without alternatives or without a site. -/
def entry (s : Settings) (t : Arena) (r : Recording) (n : Node) (l : Ledger) :
    Except RecordingError (Option Branch.Entry) × Ledger :=
  match n.construct.branchKind?, n.span? with
  | some kind, some span =>
    match t.paths s r n span with
    | .error e => (.error e, l)
    | .ok paths =>
      let (outcomes, l) := l.number paths
      (.ok (some ⟨⟨kind, n.id, span⟩, outcomes⟩), l)
  | _, _ => (.ok none, l)

def entriesOf (s : Settings) (t : Arena) (r : Recording) :
    List Node → Ledger → Except RecordingError (List Branch.Entry) × Ledger
  | [], l => (.ok [], l)
  | n :: ns, l =>
    match l.entry s t r n with
    | (.error e, l) => (.error e, l)
    | (.ok found, l) =>
      match entriesOf s t r ns l with
      | (.error e, l) => (.error e, l)
      | (.ok entries, l) => (.ok (found.toList ++ entries), l)

def entries (s : Settings) (t : Arena) (r : Recording) (l : Ledger) :
    Except RecordingError (List Branch.Entry) × Ledger :=
  entriesOf s t r (t.walkAllBranches .post) l

end Ledger

end SyntaxCoverage
