import Mathlib.Algebra.Order.BigOperators.Group.List
import SyntaxCoverage.Proofs.Labels

/-!
How often the clauses of a case were selected. A clause that has a body is seen to run; how often
one without a body was selected shows in the difference between the evaluations that reached its
test and those that went on from there. Main statement: `Ledger.entry_selections`.
-/

namespace SyntaxCoverage

open Branch Relation

/-- Of the evaluations that reach a clause, some select it and all others go on to the next one;
`rest` of them are selected by none. Every test and every body has been counted. -/
inductive Arena.SharedOut (a : Arena) (r : Recording) (rest : Nat) : List Placed → List Nat → Prop
  | nil : SharedOut a r rest [] []
  | cons {q test : Placed} {qs : List Placed} {m : Nat} {ms : List Nat}
    (htest : q.part? 0 = some test) (hlocated : test.isLocated = true)
    (hreached : a.runs r test.root = .ok (m + ms.sum + rest))
    (hbody : ∀ body, q.last? = some body → a.runs r body.root = .ok m)
    (hqs : SharedOut a r rest qs ms) : SharedOut a r rest (q :: qs) (m :: ms)

/-- The counts of the clauses as far as they show. When a last clause without a body is followed by
no else body either, nothing tells how often it was selected. -/
def shownCounts (withElse : Bool) (qs : List Placed) (ms : List Nat) : List Nat :=
  if withElse || qs.getLast?.all (·.last?.isSome) then ms else ms.dropLast ++ [0]

theorem shownCounts_cons (withElse : Bool) (q : Placed) {qs : List Placed} (m : Nat) {ms : List Nat}
    (h : qs.length = ms.length) : shownCounts withElse (q :: qs) (m :: ms) =
      (if q.last?.isNone && (qs.isEmpty && !withElse) then 0 else m) ::
        shownCounts withElse qs ms := by
  cases qs with
  | nil =>
    obtain rfl := List.length_eq_zero_iff.1 h.symm
    cases withElse <;> cases hlast : q.last? <;> simp [shownCounts, hlast]
  | cons q' qs =>
    cases ms with
    | nil => exact nomatch h
    | cons m' ms =>
      rw [shownCounts, shownCounts, List.getLast?_cons_cons, List.isEmpty_cons, Bool.false_and,
        Bool.and_false, if_neg Bool.false_ne_true]
      split <;> rfl

theorem sum_shownCounts_le (withElse : Bool) (qs : List Placed) (ms : List Nat) :
    (shownCounts withElse qs ms).sum ≤ ms.sum := by
  rw [shownCounts]
  split
  · exact Nat.le_refl _
  · rw [List.sum_append, List.sum_singleton, Nat.add_zero]
    exact (List.dropLast_sublist ms).sum_le_sum fun _ _ => Nat.zero_le _

namespace Arena

variable {a : Arena} {r : Recording} {n : Node} {span : Span} {rest index : Nat}
  {elseBody next : Option Node}

theorem clausePath_of_body {body : Node} {k : Nat} (hlast : a.lastClause? n = some body)
    (hk : a.runs r body = .ok k) : a.clausePath r span elseBody index n next =
      .ok ⟨.clause index, spanOr (some body) span, k⟩ := by
  rw [clausePath, hlast]
  simp only [hk]
  rfl

theorem clausePath_of_empty {after : Option Nat} {k : Nat} (hlast : a.lastClause? n = none)
    (hafter : a.reachAfter r next elseBody = .ok after) (hk : a.reach r n = .ok k) :
    a.clausePath r span elseBody index n next =
      .ok ⟨.clause index, spanOr (some n) span, (after.map (k - ·)).getD 0⟩ := by
  rw [clausePath, hlast]
  simp only [hafter, hk]
  cases after <;> rfl

namespace SharedOut

variable {q : Placed} {qs : List Placed} {m : Nat} {ms : List Nat}

theorem length_eq (h : a.SharedOut r rest qs ms) : qs.length = ms.length := by
  induction h with
  | nil => rfl
  | cons _ _ _ _ _ ih => rw [List.length_cons, List.length_cons, ih]

theorem tail (h : a.SharedOut r rest (q :: qs) (m :: ms)) : a.SharedOut r rest qs ms := by
  cases h
  assumption

theorem reach_head (h : a.SharedOut r rest (q :: qs) ms) (hq : a.Stands q) :
    a.reach r q.root = .ok (ms.sum + rest) := by
  cases h with
  | cons htest hlocated hreached hbody hqs =>
    rw [reach, hq.locatedAt?_root, htest, Option.filter_some_pos hlocated]
    exact hreached

variable (helse : ∀ body ∈ elseBody, a.runs r body = .ok rest)

include helse

theorem reachAfter_head (h : a.SharedOut r rest qs ms) (hstands : ∀ q ∈ qs, a.Stands q) :
    a.reachAfter r (qs.map Placed.root).head? elseBody =
      .ok (if qs.isEmpty && elseBody.isNone then none else some (ms.sum + rest)) := by
  cases qs with
  | nil =>
    cases h
    cases elseBody with
    | none => rfl
    | some body =>
      show (a.runs r body).map some = _
      rw [helse body rfl, List.sum_nil, Nat.zero_add]
      rfl
  | cons q qs =>
    show (a.reach r q.root).map some = _
    rw [h.reach_head (hstands q (List.mem_cons_self ..))]
    rfl

theorem exists_clausePath (h : a.SharedOut r rest (q :: qs) (m :: ms))
    (hstands : ∀ p ∈ q :: qs, a.Stands p) (span : Span) (index : Nat) :
    ∃ path, a.clausePath r span elseBody index q.root (qs.map Placed.root).head? = .ok path ∧
      path.hits = if q.last?.isNone && (qs.isEmpty && elseBody.isNone) then 0 else m := by
  obtain ⟨hq, hqs⟩ := List.forall_mem_cons.1 hstands
  have hreach := h.reach_head hq
  cases h with
  | cons htest hlocated hreached hbody hshared =>
    cases hlast : q.last? with
    | some body =>
      have hclause : a.lastClause? q.root = some body.root := by rw [hq.lastClause?_root, hlast]; rfl
      exact ⟨_, clausePath_of_body hclause (hbody body hlast), rfl⟩
    | none =>
      have hclause : a.lastClause? q.root = none := by rw [hq.lastClause?_root, hlast]; rfl
      refine ⟨_, clausePath_of_empty hclause (hshared.reachAfter_head helse hqs) hreach, ?_⟩
      rw [Option.isNone_none, Bool.true_and]
      cases qs.isEmpty && elseBody.isNone with
      | true => rfl
      | false =>
        show (m :: ms).sum + rest - (ms.sum + rest) = m
        rw [List.sum_cons]
        omega

theorem exists_clausePaths (h : a.SharedOut r rest qs ms) (hstands : ∀ q ∈ qs, a.Stands q)
    (span : Span) (index : Nat) :
    ∃ ps, a.clausePaths r span elseBody index (qs.map Placed.root) = .ok ps ∧
      ps.map (·.hits) = shownCounts elseBody.isSome qs ms := by
  induction qs generalizing ms index with
  | nil =>
    cases h
    exact ⟨[], rfl, by simp [shownCounts]⟩
  | cons q qs ih =>
    have hq := (List.forall_mem_cons.1 hstands).2
    cases ms with
    | nil => exact nomatch h
    | cons m ms =>
      obtain ⟨path, hpath, hhits⟩ := h.exists_clausePath helse hstands span index
      obtain ⟨ps, hps, hrest⟩ := ih h.tail hq (index + 1)
      refine ⟨path :: ps, ?_, ?_⟩
      · rw [List.map_cons, clausePaths, hpath, hps]
        rfl
      · rw [List.map_cons, hhits, hrest, shownCounts_cons _ _ _ h.tail.length_eq,
          Option.not_isSome]

end SharedOut

end Arena

structure Placed.Selected (p : Placed) (a : Arena) (r : Recording) (ms : List Nat) (rest : Nat) :
    Prop where
  clauses : a.SharedOut r rest p.clauses ms
  elseBody : ∀ body, p.elseBody? = some body → a.runs r body.root = .ok rest

/-- The entry has the number of selections of each clause as far as it shows, and the evaluations
that are left as those of the else body. With an else body no evaluation is lost. -/
structure Branch.Entry.CountsSelections (e : Entry) (p : Placed) (ms : List Nat) (rest : Nat) :
    Prop where
  labels : e.outcomes.map (·.label) =
    (List.range ms.length).map .clause ++ (p.elseBody?.map fun _ => .elsePath).toList
  hits : e.outcomes.map (·.hits) =
    shownCounts p.elseBody?.isSome p.clauses ms ++ (p.elseBody?.map fun _ => rest).toList
  total : p.elseBody?.isSome = true → (e.outcomes.map (·.hits)).sum = ms.sum + rest
  atMost : (e.outcomes.map (·.hits)).sum ≤ ms.sum + rest

namespace Placed.Selected

variable {p : Placed} {a : Arena} {r : Recording} {ms : List Nat} {rest : Nat}
  (h : p.Selected a r ms rest)

include h

theorem exists_casePaths (hp : a.Stands p) (hcase : p.root.construct = .caseOf) (span : Span) :
    ∃ ps, a.casePaths r p.root span = .ok ps ∧
      ps.map (·.hits) =
        shownCounts p.elseBody?.isSome p.clauses ms ++ (p.elseBody?.map fun _ => rest).toList := by
  have hstands : ∀ q ∈ p.clauses, a.Stands q := fun q hq => hp.part (hasPart_of_mem_clauses hq)
  have helse : ∀ body ∈ p.elseBody?.map root, a.runs r body = .ok rest := by
    rintro _ hmem
    obtain ⟨body, hbody, rfl⟩ := Option.map_eq_some_iff.1 hmem
    exact h.elseBody body hbody
  obtain ⟨ps, hps, hhits⟩ := h.clauses.exists_clausePaths helse hstands span 0
  rw [Option.isSome_map] at hhits
  rw [Arena.casePaths, hp.elseBody?_root hcase, hp.whenClauses_root hcase]
  simp only [hps]
  cases hbody : p.elseBody? with
  | none =>
    refine ⟨ps, rfl, ?_⟩
    rw [hhits, hbody]
    exact (List.append_nil _).symm
  | some body =>
    simp only [Option.map_some, h.elseBody body hbody]
    refine ⟨_, rfl, ?_⟩
    rw [List.map_append, hhits, hbody]
    rfl

theorem exists_casePaths_counts (hp : a.Stands p) (hcase : p.root.construct = .caseOf)
    (span : Span) : ∃ ps, a.casePaths r p.root span = .ok ps ∧
      ∀ key id, Entry.CountsSelections ⟨key, Path.number id ps⟩ p ms rest := by
  obtain ⟨ps, hps, hhits⟩ := h.exists_casePaths hp hcase span
  have hlabels := Arena.labels_casePaths.of_ok hps
  rw [hp.whenClauses_root hcase, hp.elseBody?_root hcase, List.length_map, h.clauses.length_eq,
    Option.isSome_map] at hlabels
  refine ⟨ps, hps, fun key id => ?_⟩
  have houtcomes := (Path.map_number Path.hits id ps).trans hhits
  refine ⟨(Path.map_number Path.label id ps).trans (hlabels.trans ?_), houtcomes, fun helse => ?_,
    ?_⟩
  · cases p.elseBody? <;> rfl
  · obtain ⟨body, hbody⟩ := Option.isSome_iff_exists.1 helse
    refine (congrArg List.sum houtcomes).trans ?_
    rw [hbody, List.sum_append]
    rfl
  · refine (congrArg List.sum houtcomes).trans_le ?_
    rw [List.sum_append]
    refine Nat.add_le_add (sum_shownCounts_le ..) ?_
    cases p.elseBody? with
    | none => exact Nat.zero_le rest
    | some body => exact Nat.le_refl rest

end Placed.Selected

theorem Placed.construct_of_case {p : Placed} (hcase : p.tree.kind = "case") :
    p.root.construct = .caseOf := by
  have hkind : Construct.FixedKind p.tree.kind := by
    rw [hcase]
    decide +kernel
  refine (Construct.ofTree_eq_ofKind hkind ..).trans ?_
  rw [hcase]
  rfl

namespace Ledger

/-- The entry of a case tells how often each clause was selected. -/
theorem entry_selections (s : Settings) (t : Tree) (r : Recording) (base : Nat) (q : Placed)
    (hq : ReflTransGen Placed.HasPart (.whole base t) q) (hcase : q.tree.kind = "case")
    (hlocated : q.isLocated = true) (ms : List Nat) (rest : Nat)
    (hselected : q.Selected (.ofTree base t) r ms rest) (l : Ledger) :
    ∃ e, (l.entry s (.ofTree base t) r q.root).1 = .ok (some e) ∧
      q.root.ReportedAs e ∧ e.CountsSelections q ms rest := by
  have hstands := (Arena.stands_ofTree base t).of_reflTransGen hq
  have hconstruct := Placed.construct_of_case hcase
  have hkind : q.root.construct.branchKind? = some .caseOf := by
    rw [hconstruct]
    rfl
  refine exists_entry_of_paths hkind hlocated (fun span => ?_) l
  rw [Arena.paths, hconstruct]
  exact hselected.exists_casePaths_counts hstands hconstruct span

def unevenCase (elseItems : List Item) : Tree :=
  let span (start stop : Nat) : Span := ⟨⟨start, stop⟩, ⟨1, start⟩, ⟨1, stop⟩⟩
  let name (start : Nat) : Item := .tree (.node "lvar" [] (some ⟨span start (start + 1), none⟩))
  .node "case" ([name 5, .tree (.node "when" [name 12] (some ⟨span 7 13, none⟩)),
    .tree (.node "when" [name 18, name 22] (some ⟨span 14 23, none⟩)),
    .tree (.node "when" [name 28, .leaf .absent] none)] ++ elseItems)
    (some ⟨span 0 40, none⟩)

theorem entry_selections_unevenCase :
    let body : Item := .tree (.node "lvar" [] (some ⟨⟨⟨34, 35⟩, ⟨1, 34⟩, ⟨1, 35⟩⟩, none⟩))
    let r : Recording :=
      ⟨fun e => .ok ([(12, 15), (18, 11), (22, 2), (28, 9), (34, 6)].lookup e.start),
        fun _ => .ok none⟩
    let q (elseItems : List Item) := Placed.whole 7 (unevenCase elseItems)
    let entryOf (elseItems : List Item) :=
      (entry .default (.ofTree 7 (unevenCase elseItems)) r (q elseItems).root ⟨20, ∅⟩).1
    (∀ elseItems ∈ [[], [body]],
      ReflTransGen Placed.HasPart (.whole 7 (unevenCase elseItems)) (q elseItems) ∧
      (q elseItems).tree.kind = "case" ∧ (q elseItems).isLocated = true ∧
      (q elseItems).Selected (.ofTree 7 (unevenCase elseItems)) r [4, 2, 3] 6) ∧
    (∃ e, entryOf [] = .ok (some e) ∧ e.outcomes.map (·.hits) = [4, 2, 0] ∧
      e.CountsSelections (q []) [4, 2, 3] 6) ∧
    ∃ e, entryOf [body] = .ok (some e) ∧ e.outcomes.map (·.hits) = [4, 2, 3, 6] ∧
      e.CountsSelections (q [body]) [4, 2, 3] 6 := by
  intro body r q entryOf
  have hselected : ∀ elseItems ∈ [[], [body]],
      (q elseItems).Selected (.ofTree 7 (unevenCase elseItems)) r [4, 2, 3] 6 := by
    intro elseItems hmem
    have hcases : elseItems = [] ∨ elseItems = [body] := by simpa using hmem
    rcases hcases with rfl | rfl
    · exact ⟨.cons rfl rfl rfl nofun (.cons rfl rfl rfl (by rintro _ ⟨⟩; rfl)
        (.cons rfl rfl rfl nofun .nil)), nofun⟩
    · exact ⟨.cons rfl rfl rfl nofun (.cons rfl rfl rfl (by rintro _ ⟨⟩; rfl)
        (.cons rfl rfl rfl nofun .nil)), by rintro _ ⟨⟩; rfl⟩
  refine ⟨fun elseItems hmem => ⟨.refl, rfl, rfl, hselected elseItems hmem⟩, ?_, ?_⟩
  · obtain ⟨e, he, -, hcounts⟩ := entry_selections .default (unevenCase []) r 7 (q []) .refl rfl rfl
      [4, 2, 3] 6 (hselected [] (by simp)) ⟨20, ∅⟩
    exact ⟨e, he, hcounts.hits.trans (by rfl), hcounts⟩
  · obtain ⟨e, he, -, hcounts⟩ := entry_selections .default (unevenCase [body]) r 7 (q [body]) .refl
      rfl rfl [4, 2, 3] 6 (hselected [body] (by simp)) ⟨20, ∅⟩
    exact ⟨e, he, hcounts.hits.trans (by rfl), hcounts⟩

end Ledger

end SyntaxCoverage
