import SyntaxCoverage.Proofs.Alignment
import SyntaxCoverage.Proofs.Marks
import SyntaxCoverage.Proofs.Stages

/-!
Whole analyses of aligned trees. They fail alike, or their reports differ in the spans of the
branches and in the numbers of the lines, and in nothing else.
-/

namespace SyntaxCoverage

/-- Both fail with the same error, or both succeed with related results. -/
def SameOutcome {ε α β : Type} (P : α → β → Prop) : Except ε α → Except ε β → Prop
  | .error e, .error e' => e = e'
  | .ok x, .ok y => P x y
  | _, _ => False

namespace SameOutcome

variable {ε ε' α β γ δ : Type} {P : α → β → Prop} {Q : γ → δ → Prop}

theorem bind {x : Except ε α} {y : Except ε β} {k : α → Except ε γ} {k' : β → Except ε δ}
    (h : SameOutcome P x y) (hk : ∀ u v, P u v → SameOutcome Q (k u) (k' v)) :
    SameOutcome Q (x >>= k) (y >>= k') := by
  cases x with
  | error e =>
    cases y with
    | error e' => exact h
    | ok v => exact h.elim
  | ok u =>
    cases y with
    | error e' => exact h.elim
    | ok v => exact hk u v h

theorem mapError {x : Except ε α} {y : Except ε β} (f : ε → ε') (h : SameOutcome P x y) :
    SameOutcome P (x.mapError f) (y.mapError f) := by
  cases x with
  | error e =>
    cases y with
    | error e' => exact congrArg f h
    | ok v => exact h.elim
  | ok u =>
    cases y with
    | error e' => exact h.elim
    | ok v => exact h

theorem refl (x : Except ε α) : SameOutcome (fun u v => v = u) x x := by
  cases x <;> rfl

theorem map_right (x : Except ε α) (f : α → β) : SameOutcome (fun u v => v = f u) x (x.map f) := by
  cases x <;> rfl

end SameOutcome

/-- One report is the other with the spans moved and the lines renumbered. -/
structure Report.Relocated (f : Span → Span) (g : Nat → Nat) (p q : Report) : Prop where
  nodeCount : q.nodeCount = p.nodeCount
  branches : q.branches = p.branches.map (.relocate f)
  lines : q.lines.entries = p.lines.entries.map (Prod.map g id)

structure Settings.CutAlike (g : Nat → Nat) (S : Set Nat) (s s' : Settings) : Prop where
  allowPartial : s'.allowPartial = s.allowPartial
  includeSkip : s'.includeSkip = s.includeSkip
  validate : s'.validate = s.validate
  firstLine : ∀ line ∈ S, line < s.firstLine ↔ g line < s'.firstLine

namespace Arena.Aligned

open Ledger

variable {a a' : Arena} {r r' : Recording} {f : Span → Span} {R : Node → Node → Prop}
  (h : Aligned a a' r r' f R) {g : Nat → Nat} {S : Set Nat} {s s' : Settings}
  (hg : StrictMonoOn g S) (hs : s.CutAlike g S s')
  (hlines : ∀ {n n'}, R n n' → ∀ span ∈ n.span?,
    span.firstLine ∈ S ∧ (f span).firstLine = g span.firstLine)

include h hlines in
theorem countedLine_renumbered {n n' : Node} (hn : R n n') :
    n'.countedLine? = n.countedLine?.map g ∧ ∀ line ∈ n.countedLine?, line ∈ S := by
  have hspan := hlines hn
  rw [h.countedLine? hn, Node.countedLine?]
  cases n.isExecutable with
  | false => simp
  | true =>
    cases hsite : n.span? with
    | none => simp
    | some span =>
      obtain ⟨hline, hmoved⟩ := hspan span hsite
      simp [hline, hmoved]

include h hg hs hlines

theorem enterNodes {ns ns' : List Node} (hns : List.Forall₂ R ns ns') {l l' : Ledger}
    (hl : Renumbered g S l l') :
    (enterNodes s' a' r' ns' l').1 = (enterNodes s a r ns l).1 ∧
      Renumbered g S (enterNodes s a r ns l).2 (enterNodes s' a' r' ns' l').2 := by
  -- what is entered is renumbered, and a failure comes at the same node
  induction hns generalizing l l' with
  | nil => exact ⟨rfl, hl⟩
  | @cons n n' ns ns' hn _ ih =>
    obtain ⟨hcounted, hS⟩ := h.countedLine_renumbered hlines hn
    simp only [Ledger.enterNodes, hcounted, h.runs hn]
    cases hline : n.countedLine? with
    | none => exact ih hl
    | some line =>
      cases a.runs r n with
      | error e => exact ⟨rfl, hl⟩
      | ok runs => exact ih (hl.enterRuns hg hs.allowPartial (hS line hline) runs)

theorem projectLines {l l' : Ledger} (hl : Renumbered g S l l') :
    SameOutcome (fun lines lines' => lines'.entries = lines.entries.map (Prod.map g id))
      (l.projectLines s a r).1 (l'.projectLines s' a' r').1 := by
  obtain ⟨hresult, hledger⟩ := h.enterNodes hg hs hlines (h.walkAll .pre) hl
  unfold Ledger.projectLines enterLines
  generalize Ledger.enterNodes s a r (a.walkAll .pre) l = x at *
  generalize Ledger.enterNodes s' a' r' (a'.walkAll .pre) l' = x' at *
  obtain ⟨x, l₁⟩ := x
  obtain ⟨x', l₁'⟩ := x'
  simp only at hresult hledger
  subst hresult
  cases x' with
  | error e => exact rfl
  | ok u => exact hledger.hitsOfLines hs.firstLine

end Arena.Aligned

theorem Settings.analyse_aligned {t t' : Tree} {r r' : Recording} {f : Span → Span}
    {R : Node → Node → Prop} (h : Arena.Aligned (.ofTree 0 t) (.ofTree 0 t') r r' f R)
    {g : Nat → Nat} {S : Set Nat} {s s' : Settings} (hg : StrictMonoOn g S)
    (hs : s.CutAlike g S s')
    (hlines : ∀ {n n'}, R n n' → ∀ span ∈ n.span?,
      span.firstLine ∈ S ∧ (f span).firstLine = g span.firstLine) (unit : String) :
    SameOutcome (Report.Relocated f g) (s.analyse unit t r) (s'.analyse unit t' r') := by
  have hsize : t'.size = t.size := by
    have := h.size
    rwa [Arena.size_ofTree, Arena.size_ofTree] at this
  have hledger : Ledger.afterBuild t' = Ledger.afterBuild t := by
    rw [Ledger.afterBuild, hsize, Ledger.afterBuild]
  have hempty : Ledger.Renumbered g S (Ledger.afterBuild t) (Ledger.afterBuild t) :=
    ⟨rfl, rfl, by simp [Ledger.afterBuild, EmptyCollection.emptyCollection, SortedMap.empty]⟩
  rw [Settings.analyse_eq, Settings.analyse_eq, hs.validate, hledger, hsize]
  refine SameOutcome.bind (.refl _) fun _ _ _ => ?_
  refine SameOutcome.bind ((h.projectLines hg hs hlines hempty).mapError _) ?_
  intro lines lines' hentries
  rw [h.entries hs.includeSkip]
  refine SameOutcome.bind ((SameOutcome.map_right _ _).mapError _) ?_
  intro branches branches' hbranches
  exact ⟨rfl, hbranches, hentries⟩

end SyntaxCoverage
