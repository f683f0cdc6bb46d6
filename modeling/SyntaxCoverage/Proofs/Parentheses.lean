import SyntaxCoverage.Proofs.Completions
import SyntaxCoverage.Proofs.Operands

/-!
Operands in parentheses. A sequence around the operand in control of a construct runs and completes
as often as the operand, but it has no counts of its own, and so the construct is taken to have been
evaluated as often as it ran. Main statement: `Ledger.entry_parenthesised`.
-/

namespace SyntaxCoverage

open Branch

def Item.parenthesise (kind : String) (site : Site) : Item → Item
  | .tree u => .tree (.node kind [.tree u] (some site))
  | .leaf l => .leaf l

namespace Tree

def parenthesise (k : Nat) (kind : String) (site : Site) (t : Tree) : Tree :=
  .node t.kind (t.items.modify k (.parenthesise kind site)) t.site

variable {k : Nat} {kind : String} {site : Site}

theorem leaves_parenthesise (t : Tree) :
    (t.parenthesise k kind site).items.map Item.leaf? = t.items.map Item.leaf? := by
  have hleaf : ∀ item : Item, (item.parenthesise kind site).leaf? = item.leaf? := by
    rintro (u | l) <;> rfl
  refine List.ext_getElem? fun j => ?_
  rw [List.getElem?_map, List.getElem?_map, parenthesise, items, List.getElem?_modify]
  cases t.items[j]? with
  | none => rfl
  | some item =>
    simp only [Option.map_eq_map, Option.map_some]
    split
    · rw [hleaf]
    · rfl

theorem treeAt?_parenthesise_self (t : Tree) : (t.parenthesise k kind site).treeAt? k =
    (t.treeAt? k).map fun u => .node kind [.tree u] (some site) := by
  rw [treeAt?, treeAt?, parenthesise, items, List.getElem?_modify_eq]
  cases t.items[k]? with
  | none => rfl
  | some item => cases item <;> rfl

theorem treeAt?_parenthesise_of_ne {j : Nat} (hj : j ≠ k) (t : Tree) :
    (t.parenthesise k kind site).treeAt? j = t.treeAt? j := by
  rw [treeAt?, treeAt?, parenthesise, items, List.getElem?_modify_ne _ _ hj.symm]

theorem ofTree_parenthesise {t : Tree} {parent parent' : Option Construct} {slot slot' i : Nat}
    (h : (Construct.ofTree parent t slot).operandSlot? = some i) :
    Construct.ofTree parent' (t.parenthesise k kind site) slot' =
      Construct.ofTree parent t slot := by
  have hkind := Construct.kind_ne_when_of_operandSlot? h
  refine Construct.ofTree_congr ?_ rfl t.leaves_parenthesise
  rw [Construct.inParent_eq_ofKind hkind, Construct.inParent_eq_ofKind hkind]

end Tree

theorem Placed.exists_part? {p : Placed} {k : Nat} {u : Tree} (h : p.tree.treeAt? k = some u) :
    ∃ q, p.part? k = some q ∧ q.tree = u := by
  rw [part?, h]
  exact ⟨_, rfl, rfl⟩

theorem Placed.construct_of_begin {p : Placed}
    (hkind : p.tree.kind = "begin" ∨ p.tree.kind = "kwbegin") : p.root.construct = .sequence := by
  have hkinds : ∀ kind ∈ ["begin", "kwbegin"],
      Construct.FixedKind kind ∧ Construct.ofKind kind = .sequence := by
    decide +kernel
  obtain ⟨hfixed, hsequence⟩ := hkinds p.tree.kind (by simpa using hkind)
  rw [← hsequence]
  exact Construct.ofTree_eq_ofKind hfixed ..

theorem Placed.located_of_single {p q : Placed} {u : Tree} (hitems : p.tree.items = [.tree u])
    (hpart : p.part? 0 = some q) (hlocated : q.isLocated = true) : p.located = [q] := by
  have hparts : p.parts = [q] := by
    rw [parts, hitems]
    simp [hpart]
  rw [located, hparts, List.filter_singleton, hlocated]
  rfl

namespace Arena

variable {a a' : Arena} {r : Recording} {k : Nat}

theorem mirrors_of_part? {p q m m' : Placed} {j j' : Nat} (hp : a.Stands p) (hq : a'.Stands q)
    (hm : p.part? j = some m) (hm' : q.part? j' = some m') (htree : m'.tree = m.tree)
    (hplace : Construct.SamePlace (some p.root.construct) j (some q.root.construct) j') :
    a.Mirrors a' m.root m'.root := by
  have hstands := hp.part ⟨j, hm⟩
  have hstands' := hq.part ⟨j', hm'⟩
  obtain ⟨-, hparent, rfl, -⟩ := Placed.part?_eq_some_iff.1 hm
  obtain ⟨-, hparent', rfl, -⟩ := Placed.part?_eq_some_iff.1 hm'
  rw [Stands, hparent] at hstands
  rw [Stands, hparent', htree] at hstands'
  rw [Placed.root, Placed.root, hparent, hparent', htree]
  exact .mk (.refl m.tree) hplace hstands hstands'

theorem samePlace_operand {c : Construct} (hc : c.operandSlot? = some k) :
    Construct.SamePlace (some c) k (some .sequence) 0 := by
  intro kind
  cases c with
  | loop test negated =>
    obtain rfl : 0 = k := Option.some.inj hc
    cases test <;> simp [Construct.inParent]
  | caseOf => simp [Construct.operandSlot?] at hc
  | _ => rfl

section Parenthesise

variable {p q : Placed} {kind : String} {site : Site} (hp : a.Stands p) (hq : a'.Stands q)
  (htree : q.tree = p.tree.parenthesise k kind site)
  (hslot : p.root.construct.operandSlot? = some k)

include htree hslot

theorem construct_parenthesise : q.root.construct = p.root.construct := by
  show Construct.ofTree _ q.tree _ = _
  rw [htree]
  exact Tree.ofTree_parenthesise hslot

include hp hq

theorem rel_locatedAt?_parenthesise {j : Nat} (hj : j ∈ p.root.construct.clauseSlots) :
    Option.Rel (a.Mirrors a') (a.locatedAt? p.root j) (a'.locatedAt? q.root j) := by
  have hne : j ≠ k := by
    rintro rfl
    exact Construct.separate_ofTree _ _ _ j hslot hj
  have htreeAt : q.tree.treeAt? j = p.tree.treeAt? j := by
    rw [htree, p.tree.treeAt?_parenthesise_of_ne hne]
  refine rel_filter? Mirrors.isLocated ?_
  rw [hp.childAt?_root, hq.childAt?_root]
  cases hm : p.part? j with
  | none =>
    rw [← Placed.map_tree_part?, ← Placed.map_tree_part?, hm, Option.map_none,
      Option.map_eq_none_iff] at htreeAt
    rw [htreeAt]
    exact .none
  | some m =>
    obtain ⟨m', hm', hsame⟩ := Placed.exists_part? (htreeAt.trans (Placed.treeAt?_of_part? hm))
    rw [hm']
    refine .some (mirrors_of_part? hp hq hm hm' hsame ?_)
    rw [construct_parenthesise htree hslot]
    exact fun _ => rfl

variable {operand : Node} (hoperand : a.locatedAt? p.root k = some operand)

include hoperand

theorem exists_wrapper (hkind : kind = "begin" ∨ kind = "kwbegin") :
    ∃ wrapper, a'.locatedAt? q.root k = some wrapper ∧ wrapper.extent? = some site.extent ∧
      a'.runs r wrapper = a.runs r operand ∧ a'.fullRuns r wrapper = a.fullRuns r operand := by
  rw [hp.locatedAt?_root] at hoperand
  obtain ⟨m, hm, rfl⟩ := Option.map_eq_some_iff.1 hoperand
  obtain ⟨hm, hlocated⟩ := Option.filter_eq_some_iff.1 hm
  have htreeAt : q.tree.treeAt? k = some (.node kind [.tree m.tree] (some site)) := by
    rw [htree, Tree.treeAt?_parenthesise_self, Placed.treeAt?_of_part? hm]
    rfl
  obtain ⟨w, hw, hwtree⟩ := Placed.exists_part? htreeAt
  have hinner : w.tree.treeAt? 0 = some m.tree := by
    rw [hwtree]
    rfl
  obtain ⟨m', hm', hsame⟩ := Placed.exists_part? hinner
  have hstands := hq.part ⟨k, hw⟩
  have hsequence : w.root.construct = .sequence := by
    apply Placed.construct_of_begin
    rwa [hwtree]
  have hsingle : w.located = [m'] := by
    have hitems : w.tree.items = [.tree m.tree] := by rw [hwtree, Tree.items]
    apply Placed.located_of_single hitems hm'
    rwa [Placed.isLocated, hsame]
  have hfirst : w.located.head? = some m' := by rw [hsingle]; rfl
  have hlast : w.located.getLast? = some m' := by rw [hsingle]; rfl
  have hmirrors : a.Mirrors a' m.root m'.root := by
    refine mirrors_of_part? hp hstands hm hm' hsame ?_
    rw [hsequence]
    exact samePlace_operand hslot
  have hpairing := pairing_mirrors a a' r
  refine ⟨w.root, ?_, ?_, ?_, ?_⟩
  · have hwlocated : w.isLocated = true := by
      rw [Placed.isLocated, hwtree]
      rfl
    rw [hq.locatedAt?_root, hw, Option.filter_some_pos hwlocated]
    rfl
  · show w.tree.site.map _ = _
    rw [hwtree]
    rfl
  · rw [hstands.runs_sequence hsequence hfirst, hpairing.runs hmirrors]
  · rw [hstands.fullRuns_sequence hsequence hlast, hpairing.fullRuns hmirrors]

end Parenthesise

end Arena

/-- With its operand in parentheses, a construct is taken to have been evaluated as often as it ran.
The parentheses themselves let all counts of the operand through, so the entry stays as it is exactly
when the completions of the operand make no difference to it. -/
theorem Ledger.entry_parenthesised {a a' : Arena} {p q : Placed} {k : Nat} {kind : String}
    {site : Site} {operand : Node} {r : Recording} (hp : a.Stands p) (hq : a'.Stands q)
    (htree : q.tree = p.tree.parenthesise k kind site) (hkind : kind = "begin" ∨ kind = "kwbegin")
    (hlocated : p.isLocated = true) (hslot : p.root.construct.operandSlot? = some k)
    (hoperand : a.locatedAt? p.root k = some operand) (hr : r.AnswersFor p.tree)
    (hsite : r.hits site.extent = .ok none) (s : Settings) (l l' : Ledger) :
    ∃ wrapper total runs w w', a'.locatedAt? q.root k = some wrapper ∧
      a'.runs r wrapper = a.runs r operand ∧ a'.fullRuns r wrapper = a.fullRuns r operand ∧
      a.Evaluated r p.root (some operand) total ∧ a'.Evaluated r q.root (some wrapper) runs ∧
      a.runs r p.root = .ok runs ∧ l.Reports s a r p.root w ∧ l'.Reports s a' r q.root w' ∧
      a.Reweighed r p.root total runs w w' := by
  obtain ⟨wrapper, hwrapper, hextent, hruns, hfull⟩ :=
    Arena.exists_wrapper (r := r) hp hq htree hslot hoperand hkind
  have hsame : a.Unwatched a' r k p.root q.root := by
    refine ⟨hslot, Arena.construct_parenthesise htree hslot, ?_, ?_, wrapper, hwrapper, ?_⟩
    · show q.tree.site = p.tree.site
      rw [htree]
      rfl
    · exact fun j hj => Arena.rel_locatedAt?_parenthesise hp hq htree hslot hj
    · rw [Arena.recordedHits, hextent]
      exact hsite
  obtain ⟨total, runs, w, w', htotal, hevaluated, hentries, hw, hw', hways⟩ :=
    hsame.exists_reports (hp.answered hr) p.root_mem hlocated s l l'
  rw [hoperand] at htotal
  rw [hwrapper] at hevaluated
  exact ⟨wrapper, total, runs, w, w', hwrapper, hruns, hfull, htotal, hevaluated, hentries, hw, hw',
    hways⟩

theorem Ledger.entry_parenthesised_oneArmed :
    let p := Placed.whole 0 (oneArmed "if")
    let site : Site := ⟨⟨⟨2, 4⟩, ⟨1, 2⟩, ⟨1, 4⟩⟩, none⟩
    let q := Placed.whole 0 ((oneArmed "if").parenthesise 0 "kwbegin" site)
    let r : Recording :=
      ⟨fun e => .ok (if e = ⟨2, 4⟩ then none else some (if e.start = 5 then 2 else 3)),
        fun e => .ok (if e = ⟨3, 4⟩ then some 2 else none)⟩
    let a := Arena.ofTree 0 (oneArmed "if")
    let a' := Arena.ofTree 0 ((oneArmed "if").parenthesise 0 "kwbegin" site)
    (a.Stands p ∧ a'.Stands q ∧ p.isLocated = true ∧ p.root.construct.operandSlot? = some 0 ∧
      r.AnswersFor p.tree ∧ r.hits site.extent = .ok none) ∧
    ∃ operand wrapper total runs w w', a.locatedAt? p.root 0 = some operand ∧
      a'.locatedAt? q.root 0 = some wrapper ∧ a'.fullRuns r wrapper = a.fullRuns r operand ∧
      a.Evaluated r p.root (some operand) total ∧ a'.Evaluated r q.root (some wrapper) runs ∧
      total = 2 ∧ runs = 3 ∧ empty.Reports .default a r p.root w ∧
      empty.Reports .default a' r q.root w' ∧ a.Reweighed r p.root total runs w w' := by
  intro p site q r a a'
  have hp : a.Stands p := Arena.stands_ofTree 0 _
  have hq : a'.Stands q := Arena.stands_ofTree 0 _
  have hr : r.AnswersFor p.tree := ⟨fun _ _ _ _ => ⟨_, rfl⟩, fun _ _ => ⟨_, rfl⟩⟩
  obtain ⟨operand, hoperand⟩ : ∃ operand, a.locatedAt? p.root 0 = some operand := ⟨_, rfl⟩
  obtain ⟨wrapper, total, runs, w, w', hwrapper, -, hfull, htotal, hruns, hentries, hw, hw', hways⟩ :=
    entry_parenthesised hp hq rfl (.inr rfl) rfl rfl hoperand hr rfl .default empty empty
  have htotal' : a.evaluations r p.root (a.locatedAt? p.root 0) = .ok 2 := rfl
  rw [hoperand] at htotal'
  refine ⟨⟨hp, hq, rfl, rfl, hr, rfl⟩, operand, wrapper, total, runs, w, w', hoperand, hwrapper,
    hfull, htotal, hruns, ?_, ?_, hw, hw', hways⟩
  · exact Except.ok.inj ((Arena.evaluations_eq_ok_iff.2 htotal).symm.trans htotal')
  · exact Except.ok.inj (hentries.symm.trans (by rfl))

def bareLoop : Tree :=
  let site (start stop : Nat) : Option Site :=
    some ⟨⟨⟨start, stop⟩, ⟨1, start⟩, ⟨1, stop⟩⟩, none⟩
  .node "while" [.tree (.node "send" [] (site 7 8)), .leaf .absent] (site 0 14)

/-- Entered once, the loop evaluates its test five times, and so repeats its body four times. With the
test in parentheses it reports that the body was left out. -/
theorem Ledger.bareLoop_parenthesised :
    let span (start stop : Nat) : Span := ⟨⟨start, stop⟩, ⟨1, start⟩, ⟨1, stop⟩⟩
    let p := Placed.whole 0 bareLoop
    let q := Placed.whole 0 (bareLoop.parenthesise 0 "begin" ⟨span 6 9, none⟩)
    let r : Recording :=
      ⟨fun e => .ok (if e = ⟨0, 14⟩ then some 1 else if e = ⟨7, 8⟩ then some 5 else none),
        fun _ => .ok none⟩
    let a := Arena.ofTree 0 bareLoop
    let a' := Arena.ofTree 0 (bareLoop.parenthesise 0 "begin" ⟨span 6 9, none⟩)
    ((∀ e, (∃ n, r.hits e = .ok n) ∧ ∃ n, r.completions e = .ok n) ∧
      r.hits ⟨6, 9⟩ = .ok none ∧ p.isLocated = true ∧ p.root.construct.operandSlot? = some 0 ∧
      (a.locatedAt? p.root 0).isSome = true) ∧
    empty.Reports .default a r p.root
      ⟨.loop, span 0 14, [⟨.body, span 0 14, 4⟩, ⟨.skip, span 0 14, 0⟩]⟩ ∧
    empty.Reports .default a' r q.root
      ⟨.loop, span 0 14, [⟨.body, span 0 14, 0⟩, ⟨.skip, span 0 14, 1⟩]⟩ := by
  intro span p q r a a'
  exact ⟨⟨fun _ => ⟨⟨_, rfl⟩, _, rfl⟩, rfl, rfl, rfl, rfl⟩, ⟨_, rfl, rfl⟩, ⟨_, rfl, rfl⟩⟩

end SyntaxCoverage
