import Mathlib.Algebra.Order.Group.Nat
import SyntaxCoverage.Arena.Runs
import SyntaxCoverage.Proofs.Parts
import SyntaxCoverage.Proofs.Slots

/-!
The descent from a sequence to one of its children, on which the two counts of a node agree: the runs
are counted along the first located children, the completions along the last ones. In a laid-out tree
every step leads into a smaller tree, so the way down comes to an end, and the bound on the steps
does not matter once it has reached the size of the tree.
-/

namespace SyntaxCoverage.Arena

open SyntaxCoverage.Tree Relation

/-- A count found below sequences: `pick` chooses the child to go on with, and `count` counts every
other node but a marker. -/
def descend (a : Arena) (pick : List Node → Option Node)
    (count : Node → Except RecordingError Nat) : Nat → Node → Except RecordingError Nat
  | 0, n => count n
  | depth + 1, n =>
    match n.construct with
    | .marker => .ok 0
    | .sequence =>
      match pick (a.locatedChildren n) with
      | some m => a.descend pick count depth m
      | none => count n
    | _ => count n

theorem runsWithin_eq_descend (a : Arena) (r : Recording) (depth : Nat) (n : Node) :
    a.runsWithin r depth n = a.descend List.head? (recordedRuns r) depth n := by
  induction depth generalizing n with
  | zero => rfl
  | succ depth ih =>
    rw [runsWithin, descend]
    cases n.construct with
    | sequence =>
      cases (a.locatedChildren n).head? with
      | none => rfl
      | some m => exact ih m
    | _ => rfl

theorem fullRunsWithin_eq_descend (a : Arena) (r : Recording) (depth : Nat) (n : Node) :
    a.fullRunsWithin r depth n = a.descend List.getLast? (a.completedRuns r) depth n := by
  induction depth generalizing n with
  | zero => rfl
  | succ depth ih =>
    rw [fullRunsWithin, descend]
    cases n.construct with
    | sequence =>
      cases (a.locatedChildren n).getLast? with
      | none => rfl
      | some m => exact ih m
    | _ => rfl

inductive SequenceEnd where
  | first
  | last
deriving DecidableEq

def SequenceEnd.pick : SequenceEnd → List Node → Option Node
  | first => List.head?
  | last => List.getLast?

def EndChild (a : Arena) : SequenceEnd → Node → Node → Prop
  | .first, n, m => ∃ k, FirstAt (a.locatedAt? n) k m
  | .last, n, m => ∃ k, LastAt (a.locatedAt? n) k m

def Terminal (a : Arena) (n : Node) : Prop :=
  n.construct ≠ .sequence ∨ ∀ k, a.locatedAt? n k = none

/-- The way down from a node along one end of the sequences, with the number of its steps and with
the node where it ends. -/
inductive Descends (a : Arena) (e : SequenceEnd) : Nat → Node → Node → Prop
  | stop {n : Node} (h : a.Terminal n) : Descends a e 0 n n
  | step {steps : Nat} {n m t : Node} (hn : n.construct = .sequence) (hm : a.EndChild e n m)
    (h : Descends a e steps m t) : Descends a e (steps + 1) n t

variable {a : Arena} {r : Recording} {e : SequenceEnd} {n m m' t t' : Node} {steps steps' : Nat}

section Ends

theorem locatedAt?_eq (a : Arena) (n : Node) (k : Nat) : a.locatedAt? n k =
    n.items[k]?.bind fun item => (item.node?.bind a.node?).filter Node.isLocated := by
  rw [locatedAt?, childAt?]
  cases n.items[k]? <;> rfl

theorem locatedChildren_eq (a : Arena) (n : Node) : a.locatedChildren n =
    n.items.filterMap fun item => (item.node?.bind a.node?).filter Node.isLocated :=
  List.filter_filterMap

theorem pick_eq_some_iff : e.pick (a.locatedChildren n) = some m ↔ a.EndChild e n m := by
  cases e with
  | first =>
    simp only [SequenceEnd.pick, EndChild, locatedChildren_eq, head?_filterMap_eq_some_iff,
      ← locatedAt?_eq]
  | last =>
    simp only [SequenceEnd.pick, EndChild, locatedChildren_eq, getLast?_filterMap_eq_some_iff,
      ← locatedAt?_eq]

theorem pick_eq_none_iff : e.pick (a.locatedChildren n) = none ↔ ∀ k, a.locatedAt? n k = none := by
  have hnil : e.pick (a.locatedChildren n) = none ↔ a.locatedChildren n = [] := by
    cases e with
    | first => exact List.head?_eq_none_iff
    | last => exact List.getLast?_eq_none_iff
  rw [hnil, locatedChildren_eq, List.filterMap_eq_nil_iff]
  simp only [locatedAt?_eq, Option.bind_eq_none_iff]
  constructor
  · intro h k item hk
    exact h item (List.mem_of_getElem? hk)
  · intro h item hitem
    obtain ⟨k, hk⟩ := List.mem_iff_getElem?.1 hitem
    exact h k item hk

theorem mem_of_pick {ns : List Node} (h : e.pick ns = some m) : m ∈ ns := by
  cases e with
  | first => exact List.mem_of_head? h
  | last => exact List.mem_of_getLast? h

theorem EndChild.unique (h : a.EndChild e n m) (h' : a.EndChild e n m') : m = m' :=
  Option.some.inj ((pick_eq_some_iff.2 h).symm.trans (pick_eq_some_iff.2 h'))

theorem Terminal.pick_eq_none (h : a.Terminal n) (hn : n.construct = .sequence) (e : SequenceEnd) :
    e.pick (a.locatedChildren n) = none :=
  pick_eq_none_iff.2 (h.resolve_left (not_not_intro hn))

theorem Terminal.not_endChild (h : a.Terminal n) (hn : n.construct = .sequence) :
    ¬a.EndChild e n m := by
  rw [← pick_eq_some_iff, h.pick_eq_none hn]
  exact nofun

end Ends

section Ways

theorem Descends.terminal (h : a.Descends e steps n t) : a.Terminal t := by
  induction h with
  | stop h => exact h
  | step _ _ _ ih => exact ih

theorem Descends.unique (h : a.Descends e steps n t) (h' : a.Descends e steps' n t') :
    steps' = steps ∧ t' = t := by
  induction h generalizing steps' with
  | stop hterminal =>
    cases h' with
    | stop => exact ⟨rfl, rfl⟩
    | step hn hm => exact absurd hm (hterminal.not_endChild hn)
  | step hn hm _ ih =>
    cases h' with
    | stop hterminal => exact absurd hm (hterminal.not_endChild hn)
    | step _ hm' hrest =>
      obtain rfl := hm.unique hm'
      obtain ⟨rfl, rfl⟩ := ih hrest
      exact ⟨rfl, rfl⟩

theorem Stands.exists_descends {p : Placed} (h : a.Stands p) (e : SequenceEnd) :
    ∃ steps q, steps < p.tree.size ∧ ReflTransGen Placed.HasPart p q ∧ p.id + steps ≤ q.id ∧
      a.Descends e steps p.root q.root := by
  induction p using Placed.part_induction with
  | step p ih =>
    by_cases hterminal : a.Terminal p.root
    · have hsize : 0 < p.tree.size := by
        rw [p.tree.size_eq]
        exact Nat.succ_pos _
      exact ⟨0, p, hsize, .refl, Nat.le_refl _, .stop hterminal⟩
    · obtain ⟨hsequence, hlocated⟩ := not_or.1 hterminal
      rw [← pick_eq_none_iff (e := e), ← ne_eq, Option.ne_none_iff_exists'] at hlocated
      obtain ⟨m, hm⟩ := hlocated
      obtain ⟨c, hpart, rfl⟩ := h.child_iff.1 (List.mem_of_mem_filter (mem_of_pick hm))
      obtain ⟨steps, q, hsteps, hq, hle, hdescends⟩ := ih c hpart (h.part hpart)
      have hsize := hpart.size_lt
      have hbounds := hpart.bounds
      refine ⟨steps + 1, q, by omega, .head hpart hq, by omega, ?_⟩
      exact .step (not_not.1 hsequence) (pick_eq_some_iff.1 hm) hdescends

end Ways

section Counts

variable {count : Node → Except RecordingError Nat}

def ownCount (count : Node → Except RecordingError Nat) (n : Node) : Except RecordingError Nat :=
  if n.construct = .marker then .ok 0 else count n

/-- With room for all steps of the way down, a count is that of the node where it ends. -/
theorem Descends.descend_eq (h : a.Descends e steps n t) {depth : Nat} (hdepth : steps < depth) :
    a.descend e.pick count depth n = ownCount count t := by
  induction h generalizing depth with
  | @stop n hterminal =>
    obtain ⟨depth, rfl⟩ := Nat.exists_eq_add_one.2 hdepth
    rw [descend, ownCount]
    cases hc : n.construct with
    | sequence =>
      simp only [hterminal.pick_eq_none hc]
      rfl
    | _ => rfl
  | step hn hm _ ih =>
    obtain ⟨depth, rfl⟩ := Nat.exists_eq_add_one.2 (Nat.zero_lt_of_lt hdepth)
    rw [descend, hn]
    simp only [pick_eq_some_iff.2 hm]
    exact ih (Nat.lt_of_succ_lt_succ hdepth)

theorem Descends.runsWithin_eq (h : a.Descends .first steps n t) {depth : Nat}
    (hdepth : steps < depth) : a.runsWithin r depth n = ownCount (recordedRuns r) t := by
  rw [runsWithin_eq_descend]
  exact h.descend_eq (e := .first) hdepth

theorem Descends.fullRunsWithin_eq (h : a.Descends .last steps n t) {depth : Nat}
    (hdepth : steps < depth) : a.fullRunsWithin r depth n = ownCount (a.completedRuns r) t := by
  rw [fullRunsWithin_eq_descend]
  exact h.descend_eq (e := .last) hdepth

end Counts

section Holds

variable {parent : Option Parent} {slot id : Nat} {u : Tree}

theorem stores_bound {ns : List Node} (h : a.Stores id (n :: ns)) :
    a.base ≤ id ∧ id + (ns.length + 1) ≤ a.base + a.size := by
  induction ns generalizing id n with
  | nil =>
    have hnode := h.1
    unfold node? at hnode
    split at hnode
    · next hbase =>
      obtain ⟨hlt, -⟩ := Array.getElem?_eq_some_iff.1 hnode
      simp only [size, List.length_nil]
      omega
    · simp at hnode
  | cons m ns ih =>
    have hnode := h.1
    have hrest := (ih h.2).2
    unfold node? at hnode
    split at hnode
    · next hbase =>
      simp only [List.length_cons]
      omega
    · simp at hnode

theorem Holds.size_le (h : a.Holds parent slot id u) : u.size ≤ a.size := by
  have hlength := length_layout parent slot id u
  rw [Holds, layout_eq] at h
  rw [layout_eq, List.length_cons] at hlength
  have hbound := stores_bound h
  omega

theorem Holds.runsWithin_eq_runs (h : a.Holds parent slot id u) {depth : Nat}
    (hdepth : u.size ≤ depth) :
    a.runsWithin r depth (u.rootNode parent slot id) = a.runs r (u.rootNode parent slot id) := by
  obtain ⟨steps, q, hsteps, -, -, hway⟩ :=
    Stands.exists_descends (p := ⟨parent, slot, id, u⟩) h .first
  have hsize : u.size ≤ a.size := h.size_le
  change steps < u.size at hsteps
  exact (hway.runsWithin_eq (by omega)).trans (hway.runsWithin_eq (by omega)).symm

theorem Holds.fullRunsWithin_eq_fullRuns (h : a.Holds parent slot id u) {depth : Nat}
    (hdepth : u.size ≤ depth) :
    a.fullRunsWithin r depth (u.rootNode parent slot id) =
      a.fullRuns r (u.rootNode parent slot id) := by
  obtain ⟨steps, q, hsteps, -, -, hway⟩ :=
    Stands.exists_descends (p := ⟨parent, slot, id, u⟩) h .last
  have hsize : u.size ≤ a.size := h.size_le
  change steps < u.size at hsteps
  exact (hway.fullRunsWithin_eq (by omega)).trans (hway.fullRunsWithin_eq (by omega)).symm

end Holds

end SyntaxCoverage.Arena
