import Mathlib.Algebra.BigOperators.Group.List.Basic
import Mathlib.Algebra.GroupWithZero.Nat
import SyntaxCoverage.Proofs.Maps
import SyntaxCoverage.Proofs.Numbering
import SyntaxCoverage.Report.Rows

/-!
Rows lose nothing. Constructs may share their kind and span, and clauses of a case their tag and
span, but where no id comes twice each entry and each outcome has a row of its own. Main statement:
`Report.rows_lossless`.
-/

namespace SyntaxCoverage

section Lists

variable {α κ ν : Type} [Ord κ]

/-- The map has one entry for each element of the list, under its own key, and no others. -/
structure SortedMap.Lists (m : SortedMap κ ν) (xs : List α) (key : α → κ) (value : α → ν) :
    Prop where
  entries : m.entries.Perm (xs.map fun x => (key x, value x))
  keys : (xs.map key).Nodup
  found : ∀ x ∈ xs, m.find? (key x) = some (value x)
  found_only : ∀ k v, m.find? k = some v → ∃! x, x ∈ xs ∧ key x = k ∧ value x = v
  size : m.size = xs.length

theorem SortedMap.lists_ofList [Std.TransOrd κ] [Std.LawfulEqOrd κ] {xs : List α} {key : α → κ}
    (value : α → ν) (h : (xs.map key).Nodup) :
    (ofList (xs.map fun x => (key x, value x))).Lists xs key value := by
  have hkeys : ((xs.map fun x => (key x, value x)).map Prod.fst).Nodup := by
    rwa [List.map_map]
  have hperm := entries_ofList_perm hkeys
  refine ⟨hperm, h, fun x hx => ?_, fun k v hfind => ?_, ?_⟩
  · exact find?_eq_some_iff.2 (hperm.mem_iff.2 (List.mem_map_of_mem hx))
  · obtain ⟨x, hx, heq⟩ := List.mem_map.1 (hperm.mem_iff.1 (find?_eq_some_iff.1 hfind))
    obtain ⟨rfl, rfl⟩ := Prod.mk.inj heq
    exact ⟨x, ⟨hx, rfl, rfl⟩, fun y hy => List.inj_on_of_nodup_map h hy.1 hx hy.2.1⟩
  · rw [SortedMap.size, hperm.length_eq, List.length_map]

end Lists

namespace Branch

variable {es : List Entry} {e : Entry}

theorem nodup_keyRows (h : (es.flatMap Entry.ids).Nodup) : (es.map fun e => e.key.row).Nodup := by
  have hids : ((es.map fun e => e.key.row).map Row.id).Nodup := by
    rw [List.map_map]
    exact (List.nodup_append.1 ((ids_perm es).nodup_iff.1 h)).1
  exact hids.of_map Row.id

theorem nodup_outcomeRows (h : (es.flatMap Entry.ids).Nodup) (he : e ∈ es) :
    (e.outcomes.map Outcome.row).Nodup := by
  have hids : ((e.outcomes.map Outcome.row).map Row.id).Nodup := by
    rw [List.map_map]
    exact (List.nodup_cons.1 ((List.nodup_flatMap.1 h).1 e he)).2
  exact hids.of_map Row.id

end Branch

/-- Where the check for unique ids passes, the rows list each entry once and below it each of its
outcomes once, with its hits. -/
theorem Report.rows_lossless {r : Report} (h : Branch.verifyUnique r.branches = .ok ()) :
    r.rows.Lists r.branches (fun e => e.key.row) Branch.Entry.rows ∧
      (∀ e ∈ r.branches, e.rows.Lists e.outcomes Branch.Outcome.row Branch.Outcome.hits) ∧
      r.rows.size = r.branches.length ∧
      (r.rows.entries.map fun row => row.2.size).sum = Branch.totalOutcomes r.branches := by
  have hids := Branch.verifyUnique_eq_ok_iff.1 h
  have hkeys : r.rows.Lists r.branches (fun e => e.key.row) Branch.Entry.rows :=
    SortedMap.lists_ofList _ (Branch.nodup_keyRows hids)
  have houtcomes : ∀ e ∈ r.branches,
      e.rows.Lists e.outcomes Branch.Outcome.row Branch.Outcome.hits :=
    fun e he => SortedMap.lists_ofList _ (Branch.nodup_outcomeRows hids he)
  refine ⟨hkeys, houtcomes, hkeys.size, ?_⟩
  calc (r.rows.entries.map fun row => row.2.size).sum
      = (r.branches.map fun e => e.rows.size).sum := by
        rw [(hkeys.entries.map fun row => row.2.size).sum_eq, List.map_map]
        rfl
    _ = (r.branches.map fun e => e.outcomes.length).sum :=
        congrArg List.sum (List.map_congr_left fun e he => (houtcomes e he).size)
    _ = Branch.totalOutcomes r.branches := rfl

theorem Report.rows_lossless_sharedSpans :
    let span : Span := ⟨⟨0, 9⟩, ⟨1, 0⟩, ⟨1, 9⟩⟩
    let entry (id next : Nat) : Branch.Entry := ⟨⟨.caseOf, id, span⟩,
      [⟨.clause 0, next, span, 3⟩, ⟨.clause 1, next + 1, span, 0⟩, ⟨.clause 2, next + 2, span, 3⟩]⟩
    let r : Report := ⟨∅, [entry 1 2, entry 0 5], 2⟩
    Branch.verifyUnique r.branches = .ok () ∧ r.rows.size = 2 ∧
      (r.rows.entries.map fun row => row.2.size).sum = 6 ∧
      r.rows.find? ⟨"case", 0, 1, 0, 1, 9⟩ = some (entry 0 5).rows ∧
      (entry 0 5).rows.find? ⟨"when", 6, 1, 0, 1, 9⟩ = some 0 ∧
      (entry 0 5).rows.find? ⟨"when", 7, 1, 0, 1, 9⟩ = some 3 := by
  intro span entry r
  have hunique : Branch.verifyUnique r.branches = .ok () := by decide
  obtain ⟨hkeys, houtcomes, hsize, htotal⟩ := rows_lossless hunique
  have hentry : entry 0 5 ∈ r.branches := by simp [r]
  have hrows := houtcomes (entry 0 5) hentry
  refine ⟨hunique, hsize, htotal, hkeys.found (entry 0 5) hentry, ?_, ?_⟩
  · exact hrows.found ⟨.clause 1, 6, span, 0⟩ (by simp [entry])
  · exact hrows.found ⟨.clause 2, 7, span, 3⟩ (by simp [entry])

end SyntaxCoverage
