import SyntaxCoverage.Proofs.Stages

/-!
The entries of a tree. Every located node with alternatives has one entry, in post-order, and no
other node has any; the outcomes are numbered without gaps across all entries.
-/

namespace SyntaxCoverage

open Branch

namespace Node

def isReported (n : Node) : Bool := n.isLocated && n.isBranch

structure ReportedAs (n : Node) (e : Entry) : Prop where
  kind : n.construct.branchKind? = some e.key.kind
  id : n.id = e.key.id
  span : n.span? = some e.key.span

theorem isReported_iff {n : Node} :
    n.isReported = true ↔
      ∃ kind span, n.construct.branchKind? = some kind ∧ n.span? = some span := by
  have hlocated : n.isLocated = n.span?.isSome := by
    rw [isLocated, span?, Option.isSome_map]
  rw [isReported, isBranch, Construct.isBranch, hlocated, Bool.and_eq_true, Option.isSome_iff_exists,
    Option.isSome_iff_exists]
  constructor
  · rintro ⟨⟨span, hspan⟩, kind, hkind⟩
    exact ⟨kind, span, hkind, hspan⟩
  · rintro ⟨kind, span, hkind, hspan⟩
    exact ⟨⟨span, hspan⟩, kind, hkind⟩

end Node

namespace Ledger

variable {s : Settings} {a : Arena} {r : Recording} {l l' : Ledger}

theorem entry_reported {n : Node} {found : Option Entry}
    (h : l.entry s a r n = (.ok found, l')) :
    List.Forall₂ Node.ReportedAs ([n].filter Node.isReported) found.toList := by
  have hcases := h ▸ entry_cases s a r n l
  rw [List.filter_singleton]
  cases hcases with
  | none hnone =>
    have hn : n.isReported = false := by
      rw [← Bool.not_eq_true, Node.isReported_iff]
      rintro ⟨kind, span, hkind, hspan⟩
      simp [hkind, hspan] at hnone
    rw [hn]
    exact .nil
  | made hkind hspan hpaths =>
    have hn : n.isReported = true := Node.isReported_iff.2 ⟨_, _, hkind, hspan⟩
    rw [hn]
    exact .cons ⟨hkind, rfl, hspan⟩ .nil

theorem entriesOf_reported {ns : List Node} {es : List Entry}
    (h : entriesOf s a r ns l = (.ok es, l')) :
    List.Forall₂ Node.ReportedAs (ns.filter Node.isReported) es := by
  induction ns generalizing l es with
  | nil =>
    simp only [entriesOf, Prod.mk.injEq, Except.ok.injEq] at h
    obtain ⟨rfl, -⟩ := h
    exact .nil
  | cons n ns ih =>
    obtain ⟨found, l₁, rest, hfound, hrest, rfl⟩ := entriesOf_cons_eq_ok_iff.1 h
    have hsplit : (n :: ns).filter Node.isReported =
        [n].filter Node.isReported ++ ns.filter Node.isReported :=
      List.filter_append [n] ns
    rw [hsplit]
    exact List.rel_append (entry_reported hfound) (ih hrest)

theorem filter_walkAllBranches (order : WalkOrder) :
    (a.walkAllBranches order).filter Node.isReported =
      (a.walkAll order).filter Node.isReported := by
  rw [Arena.walkAllBranches, List.filter_filter]
  refine List.filter_congr fun n _ => ?_
  rw [Node.isReported, Bool.and_assoc, Bool.and_self]

theorem entries_reported {base : Nat} {t : Tree} {es : List Entry}
    (h : l.entries s (.ofTree base t) r = (.ok es, l')) :
    List.Forall₂ Node.ReportedAs ((t.postorder none 0 base).filter Node.isReported) es := by
  have hentries := entriesOf_reported h
  rwa [filter_walkAllBranches, Arena.walkAll_post] at hentries

end Ledger

/-- The entries of a tree are those of its located nodes with alternatives, one each, in post-order,
and their outcomes take the next free ids one after the other. -/
theorem entries_complete (s : Settings) (t : Tree) (r : Recording) :
    (∀ {base : Nat} {l l' : Ledger} {es : List Entry},
      l.entries s (.ofTree base t) r = (.ok es, l') →
        List.Forall₂ Node.ReportedAs ((t.postorder none 0 base).filter Node.isReported) es ∧
          es.flatMap Entry.outcomeIds = List.range' l.nextId (totalOutcomes es) ∧
          l'.nextId = l.nextId + totalOutcomes es ∧ l'.lines = l.lines) ∧
    ∀ {unit : String} {p : Report}, s.analyse unit t r = .ok p →
      List.Forall₂ Node.ReportedAs ((t.postorder none 0 0).filter Node.isReported) p.branches ∧
        p.branches.flatMap Entry.outcomeIds =
          List.range' p.nodeCount (totalOutcomes p.branches) := by
  constructor
  · intro base l l' es h
    obtain ⟨hids, hledger⟩ := (Ledger.entriesOf_ok h).1
    rw [hledger]
    exact ⟨Ledger.entries_reported h, hids, rfl, rfl⟩
  · intro unit p h
    obtain ⟨-, -, hentries, hcount⟩ := Settings.analyse_eq_ok_iff.1 h
    have hrun : (Ledger.afterBuild t).entries s (.ofTree 0 t) r =
        (.ok p.branches, ((Ledger.afterBuild t).entries s (.ofTree 0 t) r).2) :=
      Prod.ext hentries rfl
    rw [hcount]
    exact ⟨Ledger.entries_reported hrun, (Ledger.entriesOf_ok hrun).1.ids⟩

def partlyLocatedLoop : Tree :=
  let span (start stop : Nat) : Span := ⟨⟨start, stop⟩, ⟨1, start⟩, ⟨1, stop⟩⟩
  let name (start : Nat) : Item := .tree (.node "lvar" [] (some ⟨span start (start + 1), none⟩))
  .node "while" [.tree (.node "if" [.tree (.node "and" [name 6, name 11] (some ⟨span 6 12, none⟩)),
      .leaf .absent, name 13] none),
    .tree (.node "begin" [.tree (.node "csend" [name 18, .leaf (.text "f")]
      (some ⟨span 18 22, some (span 21 22)⟩))] (some ⟨span 18 22, none⟩))] (some ⟨span 0 26, none⟩)

theorem entries_complete_partlyLocatedLoop :
    let r : Recording := ⟨fun e => .ok (some (30 - e.start)), fun _ => .ok none⟩
    let s := Settings.default
    (∃ es l', Ledger.entries s (.ofTree 7 partlyLocatedLoop) r ⟨40, ∅⟩ = (.ok es, l') ∧
      es.map (·.key.id) = [9, 14, 7] ∧
      List.Forall₂ Node.ReportedAs
        ((partlyLocatedLoop.postorder none 0 7).filter Node.isReported) es ∧
      es.flatMap Entry.outcomeIds = List.range' 40 (totalOutcomes es) ∧
      l'.nextId = 40 + totalOutcomes es ∧ l'.lines = ∅) ∧
    ∃ p, s.analyse "loop" partlyLocatedLoop r = .ok p ∧
      List.Forall₂ Node.ReportedAs
        ((partlyLocatedLoop.postorder none 0 0).filter Node.isReported) p.branches ∧
      p.branches.flatMap Entry.outcomeIds =
        List.range' p.nodeCount (totalOutcomes p.branches) := by
  intro r s
  have hcomplete := entries_complete s partlyLocatedLoop r
  constructor
  · have hids : (Ledger.entries s (.ofTree 7 partlyLocatedLoop) r ⟨40, ∅⟩).1.map
        (List.map (·.key.id)) = .ok [9, 14, 7] := by rfl
    cases hrun : Ledger.entries s (.ofTree 7 partlyLocatedLoop) r ⟨40, ∅⟩ with
    | mk result l' =>
      rw [hrun] at hids
      cases result with
      | error e => simp [Except.map] at hids
      | ok es => exact ⟨es, l', rfl, Except.ok.inj hids, hcomplete.1 hrun⟩
  · have hcount : (s.analyse "loop" partlyLocatedLoop r).map (·.nodeCount) = .ok 9 := by
      rw [Settings.analyse_eq]
      rfl
    cases hrun : s.analyse "loop" partlyLocatedLoop r with
    | error e => simp [hrun, Except.map] at hcount
    | ok p => exact ⟨p, rfl, hcomplete.2 hrun⟩

end SyntaxCoverage
