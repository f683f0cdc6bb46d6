import SyntaxCoverage.Proofs.Projection
import SyntaxCoverage.Proofs.Sums

/-!
Merged tallies. Merging adds the hits of each extent up to the largest count, so on every line a
merged tally has at least what either tally has by itself, and where partial coverage counts it has
no more than the two together. Main statement: `Tally.projectLines_merge`.
-/

namespace SyntaxCoverage

theorem le_addCounts_left {x : Nat} (y : Nat) (hx : x ≤ maxCount) : x ≤ addCounts x y := by
  rw [addCounts]
  omega

theorem le_addCounts_right {y : Nat} (x : Nat) (hy : y ≤ maxCount) : y ≤ addCounts x y := by
  rw [addCounts]
  omega

theorem addCounts_mono {x x' y y' : Nat} (hx : x ≤ x') (hy : y ≤ y') :
    addCounts x y ≤ addCounts x' y' := by
  simp only [addCounts]
  omega

theorem addCounts_zero {x : Nat} (hx : x ≤ maxCount) : addCounts x 0 = x :=
  Nat.min_eq_left hx

namespace Tally

def hitsOf (t : Tally) (e : Extent) : Nat := ((t.counts.find? e).map (·.hits)).getD 0

def Bounded (t : Tally) : Prop := ∀ e, t.hitsOf e ≤ maxCount

section Merge

variable {a b : Tally}

theorem hitsOf_merge (ha : a.Bounded) (e : Extent) :
    (a.merge b).hitsOf e = addCounts (a.hitsOf e) (b.hitsOf e) := by
  have hbound : a.hitsOf e ≤ maxCount := ha e
  simp only [hitsOf, find?_merge] at hbound ⊢
  cases ha : a.counts.find? e with
  | none =>
    cases b.counts.find? e with
    | none => rfl
    | some d => exact (zero_addCounts d.hits).symm
  | some c =>
    rw [ha] at hbound
    cases b.counts.find? e with
    | none => exact (addCounts_zero hbound).symm
    | some d => exact addCounts_min c.hits d.hits

theorem Capped.bounded {t : Tally} (ht : t.Capped) : t.Bounded := by
  intro e
  rw [hitsOf]
  cases hfind : t.counts.find? e with
  | none => exact Nat.zero_le _
  | some c => exact (capped_iff.1 ht e c hfind).1

theorem bounded_ofRecords (rs : List HitRecord) : (ofRecords rs).Bounded :=
  (capped_ofRecords rs).bounded

end Merge

def hitsAtNode (t : Tally) (n : Node) : Nat := (n.extent?.map t.hitsOf).getD 0

section Lines

variable {t : Tally} {s : Settings} {base : Nat} {tree : Tree}

theorem hits_recording (ht : t.lines = none) (e : Extent) :
    t.recording.hits e = .ok ((t.counts.find? e).map (·.hits)) := by
  show t.checkBounds e >>= _ = _
  rw [checkBounds, ht]
  rfl

theorem recordedRuns_recording (ht : t.lines = none) (n : Node) :
    Arena.recordedRuns t.recording n = .ok (t.hitsAtNode n) := by
  rw [Arena.recordedRuns, Arena.recordedHits, hitsAtNode]
  cases n.extent? with
  | none => rfl
  | some e =>
    simp only [hits_recording ht]
    rfl

theorem runsStarting_recording (ht : t.lines = none) (arena : Arena) (line : Nat) :
    arena.runsStarting t.recording line =
      (arena.nodes.toList.filter (·.startsOn line)).map t.hitsAtNode := by
  rw [Arena.runsStarting, ← List.filterMap_eq_map]
  apply List.filterMap_congr
  intro n hn
  have hstart := (List.mem_filter.1 hn).2
  have hexecutable : n.isExecutable = true := by
    rw [Node.startsOn_iff] at hstart
    exact Arena.isExecutable_of_countedLine? (by rw [hstart]; rfl)
  rw [Arena.runs_of_isExecutable hexecutable, recordedRuns_recording ht]
  rfl

theorem exists_hasLines (ht : t.lines = none) (s : Settings) (base id : Nat) (tree : Tree) :
    ∃ lines, Ledger.projectLines s (.ofTree base tree) t.recording ⟨id, ∅⟩ = (.ok lines, ⟨id, ∅⟩) ∧
      (Arena.ofTree base tree).HasLines s t.recording lines := by
  have hruns : ∀ n ∈ tree.layout none 0 base, n.countedLine?.isSome →
      ∃ k, (Arena.ofTree base tree).runs t.recording n = .ok k := by
    intro n _ hline
    have hexecutable := Arena.isExecutable_of_countedLine? hline
    exact ⟨_, (Arena.runs_of_isExecutable hexecutable).trans (recordedRuns_recording ht n)⟩
  exact ⟨_, Ledger.projectLines_of_runs hruns ⟨id, ∅⟩, Ledger.hasLines_enterPairs hruns id⟩

end Lines

end Tally

namespace Settings

variable {s : Settings} {α : Type} {f g h : α → Nat} {xs : List α} {x y m : Nat}

theorem lineTotal?_mono (hle : ∀ v ∈ xs, f v ≤ h v) (hf : s.lineTotal? (xs.map f) = some x)
    (hh : s.lineTotal? (xs.map h) = some m) : x ≤ m := by
  rw [lineTotal?] at hf
  split at hf
  · obtain rfl := Option.some.inj hf
    exact Nat.zero_le _
  · next hmissed =>
    have hkept : ¬(s.allowPartial = false ∧ 0 ∈ xs.map h) := by
      rintro ⟨hs, hzero⟩
      obtain ⟨v, hv, hv0⟩ := List.mem_map.1 hzero
      have hfv : f v = 0 := Nat.le_zero.1 (hv0 ▸ hle v hv)
      exact hmissed ⟨hs, List.mem_map.2 ⟨v, hv, hfv⟩⟩
    rw [lineTotal?, if_neg hkept] at hh
    obtain ⟨v, hv, rfl⟩ := List.mem_map.1 (List.max?_eq_some_iff.1 hf).1
    have hmax : h v ≤ m := (List.max?_eq_some_iff.1 hh).2 _ (List.mem_map_of_mem hv)
    exact (hle v hv).trans hmax

theorem lineTotal?_le_addCounts (hs : s.allowPartial = true)
    (hle : ∀ v ∈ xs, h v ≤ addCounts (f v) (g v)) (hf : s.lineTotal? (xs.map f) = some x)
    (hg : s.lineTotal? (xs.map g) = some y) (hh : s.lineTotal? (xs.map h) = some m) :
    m ≤ addCounts x y := by
  have hmax : ∀ runs, s.lineTotal? runs = runs.max? := by
    intro runs
    simp [lineTotal?, hs]
  rw [hmax] at hf hg hh
  obtain ⟨v, hv, rfl⟩ := List.mem_map.1 (List.max?_eq_some_iff.1 hh).1
  have hx : f v ≤ x := (List.max?_eq_some_iff.1 hf).2 _ (List.mem_map_of_mem hv)
  have hy : g v ≤ y := (List.max?_eq_some_iff.1 hg).2 _ (List.mem_map_of_mem hv)
  exact (hle v hv).trans (addCounts_mono hx hy)

end Settings

/-- The lines of a merged tally next to those of its two parts: the same lines, on each of them no
fewer hits than either part has, and where partial coverage counts no more than both have. -/
structure LineHits.Merges (s : Settings) (left right merged : LineHits) : Prop where
  lines_left : ∀ line, (merged.find? line).isSome ↔ (left.find? line).isSome
  lines_right : ∀ line, (merged.find? line).isSome ↔ (right.find? line).isSome
  above : ∀ {line x y m}, left.find? line = some x → right.find? line = some y →
    merged.find? line = some m → max x y ≤ m
  below : s.allowPartial = true → ∀ {line x y m}, left.find? line = some x →
    right.find? line = some y → merged.find? line = some m → m ≤ addCounts x y

namespace Tally

variable {a b : Tally}

theorem lines_merge (hla : a.lines = none) (hlb : b.lines = none) : (a.merge b).lines = none := by
  show (a.lines <|> b.lines) = none
  rw [hla, hlb]
  rfl

theorem hitsAtNode_merge (ha : a.Bounded) (n : Node) :
    (a.merge b).hitsAtNode n = addCounts (a.hitsAtNode n) (b.hitsAtNode n) := by
  rw [hitsAtNode, hitsAtNode, hitsAtNode]
  cases n.extent? with
  | none => rfl
  | some e => exact hitsOf_merge ha e

theorem Bounded.hitsAtNode {t : Tally} (ht : t.Bounded) (n : Node) :
    t.hitsAtNode n ≤ maxCount := by
  rw [Tally.hitsAtNode]
  cases n.extent? with
  | none => exact Nat.zero_le _
  | some e => exact ht e

theorem merges_of_hasLines (ha : a.Bounded) (hb : b.Bounded) (hla : a.lines = none)
    (hlb : b.lines = none) {s : Settings} {arena : Arena} {left right merged : LineHits}
    (hleft : arena.HasLines s a.recording left) (hright : arena.HasLines s b.recording right)
    (hmerged : arena.HasLines s (a.merge b).recording merged) :
    LineHits.Merges s left right merged := by
  have hlm : (a.merge b).lines = none := lines_merge hla hlb
  -- on a line that is there, each of the three has the total of its own runs
  have htotal : ∀ {t : Tally} {lines : LineHits}, t.lines = none →
      arena.HasLines s t.recording lines → ∀ {line k}, lines.find? line = some k →
        s.lineTotal? ((arena.nodes.toList.filter (·.startsOn line)).map t.hitsAtNode) = some k := by
    intro t lines ht hlines line k hfind
    have hfirst : s.firstLine ≤ line := ((hlines.keys line).1 (by rw [hfind]; rfl)).1
    rw [← runsStarting_recording ht, ← hlines.hits line hfirst, hfind]
  constructor
  · exact fun line => (hmerged.keys line).trans (hleft.keys line).symm
  · exact fun line => (hmerged.keys line).trans (hright.keys line).symm
  · intro line x y m hx hy hm
    have hfrom_left : x ≤ m := by
      refine Settings.lineTotal?_mono (fun n _ => ?_) (htotal hla hleft hx) (htotal hlm hmerged hm)
      rw [hitsAtNode_merge ha]
      exact le_addCounts_left _ (ha.hitsAtNode n)
    have hfrom_right : y ≤ m := by
      refine Settings.lineTotal?_mono (fun n _ => ?_) (htotal hlb hright hy) (htotal hlm hmerged hm)
      rw [hitsAtNode_merge ha]
      exact le_addCounts_right _ (hb.hitsAtNode n)
    exact Nat.max_le.2 ⟨hfrom_left, hfrom_right⟩
  · intro hs line x y m hx hy hm
    exact Settings.lineTotal?_le_addCounts hs (fun n _ => (hitsAtNode_merge ha n).le)
      (htotal hla hleft hx) (htotal hlb hright hy) (htotal hlm hmerged hm)

/-- Merging tallies never takes hits from a line, and where partial coverage counts it never makes
more than there are. -/
theorem projectLines_merge (s : Settings) (base : Nat) (tree : Tree) (i j k : Nat)
    (ha : a.Bounded) (hb : b.Bounded) (hla : a.lines = none) (hlb : b.lines = none) :
    ∃ left right merged,
      Ledger.projectLines s (.ofTree base tree) a.recording ⟨i, ∅⟩ = (.ok left, ⟨i, ∅⟩) ∧
      Ledger.projectLines s (.ofTree base tree) b.recording ⟨j, ∅⟩ = (.ok right, ⟨j, ∅⟩) ∧
      Ledger.projectLines s (.ofTree base tree) (a.merge b).recording ⟨k, ∅⟩ =
        (.ok merged, ⟨k, ∅⟩) ∧
      LineHits.Merges s left right merged := by
  have hlm : (a.merge b).lines = none := lines_merge hla hlb
  obtain ⟨left, hrun_left, hleft⟩ := exists_hasLines hla s base i tree
  obtain ⟨right, hrun_right, hright⟩ := exists_hasLines hlb s base j tree
  obtain ⟨merged, hrun_merged, hmerged⟩ := exists_hasLines hlm s base k tree
  exact ⟨left, right, merged, hrun_left, hrun_right, hrun_merged,
    merges_of_hasLines ha hb hla hlb hleft hright hmerged⟩

def oddRun : Tally :=
  ofRecords [⟨⟨0, 1⟩, 3, none⟩, ⟨⟨6, 7⟩, maxCount, some 1⟩, ⟨⟨4, 5⟩, 1, none⟩]

def evenRun : Tally := ofRecords [⟨⟨2, 3⟩, 2, none⟩, ⟨⟨6, 7⟩, 5, none⟩, ⟨⟨2, 3⟩, 2, some 4⟩]

theorem projectLines_merge_incomplete :
    let s : Settings := { Settings.default with allowPartial := false }
    let arena := Arena.ofTree 5 Ledger.pairedLines
    ((oddRun.Bounded ∧ evenRun.Bounded) ∧ oddRun.lines = none ∧ evenRun.lines = none) ∧
    ∃ left right merged,
      Ledger.projectLines s arena oddRun.recording ⟨11, ∅⟩ = (.ok left, ⟨11, ∅⟩) ∧
      Ledger.projectLines s arena evenRun.recording ⟨11, ∅⟩ = (.ok right, ⟨11, ∅⟩) ∧
      Ledger.projectLines s arena (oddRun.merge evenRun).recording ⟨11, ∅⟩ =
        (.ok merged, ⟨11, ∅⟩) ∧
      (left.entries = [(1, 0), (2, maxCount)] ∧ right.entries = [(1, 0), (2, 0)] ∧
        merged.entries = [(1, 4), (2, maxCount)]) ∧
      LineHits.Merges s left right merged := by
  intro s arena
  have hodd : oddRun.Bounded := bounded_ofRecords _
  have heven : evenRun.Bounded := bounded_ofRecords _
  have hlines : oddRun.lines = none ∧ evenRun.lines = none := ⟨rfl, rfl⟩
  obtain ⟨left, right, merged, hleft, hright, hmerged, hmerges⟩ :=
    projectLines_merge s 5 Ledger.pairedLines 11 11 11 hodd heven hlines.1 hlines.2
  have hentries : (Ledger.projectLines s arena oddRun.recording ⟨11, ∅⟩).1.map (·.entries) =
        .ok [(1, 0), (2, maxCount)] ∧
      (Ledger.projectLines s arena evenRun.recording ⟨11, ∅⟩).1.map (·.entries) =
        .ok [(1, 0), (2, 0)] ∧
      (Ledger.projectLines s arena (oddRun.merge evenRun).recording ⟨11, ∅⟩).1.map (·.entries) =
        .ok [(1, 4), (2, maxCount)] := by decide +kernel
  rw [hleft, hright, hmerged] at hentries
  obtain ⟨hl, hr, hm⟩ := hentries
  exact ⟨⟨⟨hodd, heven⟩, hlines⟩, left, right, merged, hleft, hright, hmerged,
    ⟨Except.ok.inj hl, Except.ok.inj hr, Except.ok.inj hm⟩, hmerges⟩

end Tally

end SyntaxCoverage
