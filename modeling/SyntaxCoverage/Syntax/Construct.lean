/-!
Constructs: the shapes of syntax with coverage rules of their own. Spellings with different layouts
share a construct, which remembers the slots of its clauses.
-/

namespace SyntaxCoverage

inductive Connective where
  | and
  | or
deriving DecidableEq, Inhabited

inductive LoopTest where
  | before
  | after
deriving DecidableEq, Inhabited

inductive Construct where
  | generic
  | marker
  | sequence
  | conditional (thenSlot elseSlot : Nat)
  | caseOf
  | whenClause
  | shortCircuit (op : Connective) (lhs rhs : Nat)
  | safeCall (receiver : Nat)
  | loop (test : LoopTest) (negated : Bool)
deriving DecidableEq, Inhabited

namespace Branch

/-- The kind that a construct is reported under, the same for all its spellings. -/
inductive Kind where
  | conditional
  | caseOf
  | and
  | or
  | safeCall
  | loop
  | loopAfter
deriving DecidableEq, Inhabited

namespace Kind

def all : List Kind := [conditional, caseOf, and, or, safeCall, loop, loopAfter]

def tag : Kind → String
  | conditional => "if"
  | caseOf => "case"
  | and => "and"
  | or => "or"
  | safeCall => "csend"
  | loop => "while"
  | loopAfter => "while_post"

def ofTag? (tag : String) : Option Kind := all.find? fun kind => kind.tag == tag

end Kind

end Branch

namespace Connective

def name : Connective → String
  | and => "And"
  | or => "Or"

def ofName? (name : String) : Option Connective := [and, or].find? fun op => op.name == name

def kind : Connective → Branch.Kind
  | and => .and
  | or => .or

end Connective

namespace LoopTest

def name : LoopTest → String
  | before => "PreTest"
  | after => "PostTest"

def ofName? (name : String) : Option LoopTest :=
  [before, after].find? fun test => test.name == name

def kind : LoopTest → Branch.Kind
  | before => .loop
  | after => .loopAfter

end LoopTest

namespace Construct

def name : Construct → String
  | generic => "Generic"
  | marker => "Marker"
  | sequence => "Sequence"
  | conditional _ _ => "Conditional"
  | caseOf => "Case"
  | whenClause => "When"
  | shortCircuit op _ _ => op.name
  | safeCall _ => "SafeNavigation"
  | loop .before false => "While"
  | loop .before true => "Until"
  | loop .after false => "WhilePost"
  | loop .after true => "UntilPost"

def isExecutable : Construct → Bool
  | marker => false
  | sequence => false
  | _ => true

def branchKind? : Construct → Option Branch.Kind
  | conditional _ _ => some .conditional
  | caseOf => some .caseOf
  | shortCircuit op _ _ => some op.kind
  | safeCall _ => some .safeCall
  | loop test _ => some test.kind
  | _ => none

def isBranch (c : Construct) : Bool := c.branchKind?.isSome

end Construct

end SyntaxCoverage
