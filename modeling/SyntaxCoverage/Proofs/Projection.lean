import SyntaxCoverage.Proofs.Marks
import SyntaxCoverage.Proofs.Walks

/-!
The hits of lines, read off the nodes. Whatever the order in which nodes are entered, a line has the
most runs of the nodes that start on it, or none at all when one of them was missed and that counts.
-/

namespace SyntaxCoverage

namespace Settings

def lineTotal? (s : Settings) (runs : List Nat) : Option Nat :=
  if s.allowPartial = false ∧ 0 ∈ runs then some 0 else runs.max?

variable {s : Settings}

theorem lineTotal?_nil (s : Settings) : s.lineTotal? [] = none := by
  simp [lineTotal?]

theorem isSome_lineTotal? (runs : List Nat) : (s.lineTotal? runs).isSome ↔ runs ≠ [] := by
  unfold lineTotal?
  split
  · next h =>
    have hne : runs ≠ [] := List.ne_nil_of_mem h.2
    simp [hne]
  · exact List.isSome_max?_iff

theorem exists_lineTotal?_of_mem (hs : s.allowPartial = true) {k : Nat} {runs : List Nat}
    (hk : k ∈ runs) : ∃ v, s.lineTotal? runs = some v ∧ k ≤ v := by
  have hmax : s.lineTotal? runs = runs.max? := by simp [lineTotal?, hs]
  obtain ⟨v, hv⟩ := Option.isSome_iff_exists.1 (List.isSome_max?_iff.2 (List.ne_nil_of_mem hk))
  exact ⟨v, hmax.trans hv, (List.max?_eq_some_iff.1 hv).2 k hk⟩

end Settings

def LineMark.hits (mark : LineMark) : Nat := if mark.missed then 0 else mark.runs

namespace Ledger

variable {s : Settings}

theorem missed_cons (k : Nat) (runs : List Nat) :
    ((!s.allowPartial && k == 0) || (!s.allowPartial && runs.contains 0)) =
      (!s.allowPartial && (k :: runs).contains 0) := by
  rw [← Bool.and_or_distrib_left, List.contains_cons, BEq.comm]

theorem markOf?_some (runs : List Nat) (mark : LineMark) :
    markOf? s runs (some mark) =
      some ⟨runs.foldl max mark.runs, mark.missed || (!s.allowPartial && runs.contains 0)⟩ := by
  induction runs generalizing mark with
  | nil => simp [markOf?]
  | cons k runs ih =>
    refine (ih _).trans ?_
    simp only [marked, Option.getD_some, List.foldl_cons, Bool.or_assoc, missed_cons]

theorem markOf?_cons (k : Nat) (runs : List Nat) :
    markOf? s (k :: runs) none =
      some ⟨runs.foldl max k, !s.allowPartial && (k :: runs).contains 0⟩ := by
  refine (markOf?_some runs _).trans ?_
  simp only [marked, Option.getD_none, Nat.zero_max, Bool.false_or, missed_cons]

theorem hits_markOf? (runs : List Nat) :
    (markOf? s runs none).map LineMark.hits = s.lineTotal? runs := by
  cases runs with
  | nil =>
    rw [Settings.lineTotal?_nil]
    rfl
  | cons k runs =>
    have hmissed : (!s.allowPartial && (k :: runs).contains 0) = true ↔
        s.allowPartial = false ∧ 0 ∈ k :: runs := by
      rw [Bool.and_eq_true, Bool.not_eq_true', List.contains_iff_mem]
    simp only [markOf?_cons, Option.map_some, LineMark.hits, hmissed, Settings.lineTotal?,
      List.max?_cons']
    split <;> rfl

theorem find?_hitsOfLines (lines : SortedMap Nat LineMark) (line : Nat) :
    (hitsOfLines s lines).find? line =
      if s.firstLine ≤ line then (lines.find? line).map LineMark.hits else none := by
  unfold hitsOfLines
  rw [SortedMap.find?_mapValues, SortedMap.find?_filterKeys]
  simp only [decide_eq_true_eq]
  split <;> rfl

theorem find?_hitsOfLines_enterPairs (pairs : List (Nat × Nat)) (id line : Nat) :
    (hitsOfLines s (enterPairs s pairs ⟨id, ∅⟩).lines).find? line =
      if s.firstLine ≤ line then s.lineTotal? (runsOnLine line pairs) else none := by
  have hempty : (∅ : SortedMap Nat LineMark).find? line = none := rfl
  rw [find?_hitsOfLines, find?_enterPairs, hempty, hits_markOf?]

end Ledger

namespace Node

def startsOn (line : Nat) (n : Node) : Bool :=
  n.construct != .marker && n.construct != .sequence && n.span?.map Span.firstLine == some line

theorem isExecutable_eq (n : Node) :
    n.isExecutable = (n.construct != .marker && n.construct != .sequence) := by
  rw [isExecutable]
  cases n.construct <;> rfl

theorem startsOn_iff {n : Node} {line : Nat} :
    n.startsOn line = true ↔ n.countedLine? = some line := by
  rw [startsOn, ← isExecutable_eq, countedLine?]
  cases n.isExecutable <;> simp

end Node

namespace Arena

def runsStarting (a : Arena) (r : Recording) (line : Nat) : List Nat :=
  (a.nodes.toList.filter (·.startsOn line)).filterMap fun n => (a.runs r n).toOption

/-- The hits of the lines, line by line. A line is there when something starts on it, and an executed
node never stands on a line without hits as long as partial coverage counts. -/
structure HasLines (a : Arena) (s : Settings) (r : Recording) (lines : LineHits) : Prop where
  ascending : (lines.entries.map Prod.fst).Pairwise (· < ·)
  keys : ∀ line, (lines.find? line).isSome ↔
    s.firstLine ≤ line ∧ ∃ n ∈ a.nodes.toList, n.startsOn line = true
  hits : ∀ line, s.firstLine ≤ line → lines.find? line = s.lineTotal? (a.runsStarting r line)
  executed : s.allowPartial = true → ∀ n ∈ a.nodes.toList, a.wasExecuted r n = .ok true →
    ∃ span, n.span? = some span ∧
      (s.firstLine ≤ span.firstLine → ∃ k, lines.find? span.firstLine = some k ∧ 0 < k)

variable {a : Arena} {r : Recording}

theorem runs_of_isExecutable {n : Node} (hn : n.isExecutable = true) :
    a.runs r n = recordedRuns r n := by
  rw [runs, runsWithin]
  rw [Node.isExecutable] at hn
  cases hc : n.construct with
  | marker => simp [hc, Construct.isExecutable] at hn
  | sequence => simp [hc, Construct.isExecutable] at hn
  | _ => rfl

theorem runs_ok_of_hits {n : Node} (hn : n.isExecutable = true)
    (hhits : ∀ e ∈ n.extent?, ∃ k, r.hits e = .ok k) : ∃ k, a.runs r n = .ok k := by
  rw [runs_of_isExecutable hn, recordedRuns, recordedHits]
  cases he : n.extent? with
  | none => exact ⟨0, rfl⟩
  | some e =>
    obtain ⟨k, hk⟩ := hhits e he
    simp only [hk]
    exact ⟨k.getD 0, rfl⟩

theorem isExecutable_of_countedLine? {n : Node} (hn : n.countedLine?.isSome) :
    n.isExecutable = true := by
  rw [Node.countedLine?] at hn
  split at hn
  · assumption
  · simp at hn

theorem mem_runsStarting {line k : Nat} : k ∈ a.runsStarting r line ↔
    ∃ n ∈ a.nodes.toList, n.startsOn line = true ∧ a.runs r n = .ok k := by
  simp only [runsStarting, List.mem_filterMap, List.mem_filter, and_assoc]
  refine exists_congr fun n => and_congr_right fun _ => and_congr_right fun _ => ?_
  cases a.runs r n <;> simp [Except.toOption]

theorem exists_span_of_wasExecuted {n : Node} (h : a.wasExecuted r n = .ok true) :
    n.isExecutable = true ∧
      ∃ span k, n.span? = some span ∧ a.runs r n = .ok k ∧ 0 < k := by
  rw [wasExecuted] at h
  split at h
  · next hexec =>
    refine ⟨hexec, ?_⟩
    have hrecorded := runs_of_isExecutable (a := a) (r := r) hexec
    cases hruns : a.runs r n with
    | error e => simp [hruns, Except.map] at h
    | ok k =>
      have hpos : 0 < k := by simpa [hruns, Except.map] using h
      cases hsite : n.site with
      | some site => exact ⟨site.whole, k, by simp [Node.span?, hsite], rfl, hpos⟩
      | none =>
        have hzero : recordedRuns r n = .ok 0 := by
          simp [recordedRuns, recordedHits, Node.extent?, hsite, Except.map]
        rw [hruns, hzero] at hrecorded
        obtain rfl := Except.ok.inj hrecorded
        exact absurd hpos (Nat.lt_irrefl 0)
  · simp at h

theorem runsStarting_ne_nil
    (hruns : ∀ n ∈ a.nodes.toList, n.countedLine?.isSome → ∃ k, a.runs r n = .ok k)
    {line : Nat} :
    a.runsStarting r line ≠ [] ↔ ∃ n ∈ a.nodes.toList, n.startsOn line = true := by
  constructor
  · intro h
    obtain ⟨k, hk⟩ := List.exists_mem_of_ne_nil _ h
    obtain ⟨n, hn, hstart, -⟩ := mem_runsStarting.1 hk
    exact ⟨n, hn, hstart⟩
  · rintro ⟨n, hn, hstart⟩
    have hline := Node.startsOn_iff.1 hstart
    obtain ⟨k, hk⟩ := hruns n hn (by rw [hline]; rfl)
    exact List.ne_nil_of_mem (mem_runsStarting.2 ⟨n, hn, hstart, hk⟩)

theorem runsOnLine_countedRuns {ns : List Node}
    (hruns : ∀ n ∈ ns, n.countedLine?.isSome → ∃ k, a.runs r n = .ok k) (line : Nat) :
    Ledger.runsOnLine line (ns.filterMap (Ledger.countedRuns a r)) =
      (ns.filter (·.startsOn line)).filterMap fun n => (a.runs r n).toOption := by
  rw [Ledger.runsOnLine, List.filterMap_filterMap, List.filterMap_filter]
  refine List.filterMap_congr fun n hn => ?_
  have hok := hruns n hn
  simp only [Ledger.countedRuns, Node.startsOn_iff]
  cases hline : n.countedLine? with
  | none => simp
  | some i =>
    rw [hline] at hok
    obtain ⟨k, hk⟩ := hok rfl
    by_cases hi : i = line <;> simp [hi, hk, Except.toOption]

end Arena

namespace Ledger

variable {s : Settings} {base : Nat} {t : Tree} {r : Recording}

theorem projectLines_of_runs
    (hruns : ∀ n ∈ t.layout none 0 base, n.countedLine?.isSome →
      ∃ k, (Arena.ofTree base t).runs r n = .ok k) (l : Ledger) :
    l.projectLines s (.ofTree base t) r =
      (.ok (hitsOfLines s (enterPairs s
        ((t.layout none 0 base).filterMap (countedRuns (.ofTree base t) r)) l).lines),
        { l with lines := ∅ }) := by
  unfold projectLines enterLines
  rw [Arena.walkAll_pre, enterNodes_of_ok hruns]
  simp only [takeLines, nextId_enterPairs]

theorem ascending_lines (lines : LineHits) :
    (lines.entries.map Prod.fst).Pairwise (· < ·) := by
  refine List.pairwise_map.2 (lines.ascending.imp fun {a b} hlt => ?_)
  exact Nat.compare_eq_lt.1 hlt

theorem hasLines_enterPairs
    (hruns : ∀ n ∈ t.layout none 0 base, n.countedLine?.isSome →
      ∃ k, (Arena.ofTree base t).runs r n = .ok k) (id : Nat) :
    (Arena.ofTree base t).HasLines s r (hitsOfLines s (enterPairs s
      ((t.layout none 0 base).filterMap (countedRuns (.ofTree base t) r)) ⟨id, ∅⟩).lines) := by
  have hnodes : (Arena.ofTree base t).nodes.toList = t.layout none 0 base := rfl
  have hfind : ∀ line, (hitsOfLines s (enterPairs s
      ((t.layout none 0 base).filterMap (countedRuns (.ofTree base t) r)) ⟨id, ∅⟩).lines).find?
        line = if s.firstLine ≤ line then
          s.lineTotal? ((Arena.ofTree base t).runsStarting r line) else none := by
    intro line
    rw [find?_hitsOfLines_enterPairs, Arena.runsOnLine_countedRuns hruns, Arena.runsStarting,
      hnodes]
  refine ⟨ascending_lines _, ?_, ?_, ?_⟩
  · intro line
    rw [hfind]
    split
    · next hfirst =>
      rw [Settings.isSome_lineTotal?, Arena.runsStarting_ne_nil hruns]
      exact (and_iff_right hfirst).symm
    · next hfirst => simp [hfirst]
  · intro line hfirst
    rw [hfind, if_pos hfirst]
  · intro hpartial n hn hexecuted
    obtain ⟨hexec, span, k, hspan, hk, hpos⟩ := Arena.exists_span_of_wasExecuted hexecuted
    refine ⟨span, hspan, fun hfirst => ?_⟩
    have hstart : n.startsOn span.firstLine = true := by
      rw [Node.startsOn_iff, Node.countedLine?, if_pos hexec, hspan]
      rfl
    obtain ⟨v, hv, hle⟩ := Settings.exists_lineTotal?_of_mem hpartial
      (Arena.mem_runsStarting.2 ⟨n, hn, hstart, hk⟩)
    refine ⟨v, ?_, hpos.trans_le hle⟩
    rw [hfind, if_pos hfirst, hv]

/-- Projecting succeeds when the recording answers for what is located and executable. The lines are
those read off the nodes, and the ledger ends as it began. -/
theorem projectLines_hasLines (s : Settings) (base : Nat) (t : Tree) (r : Recording) (id : Nat)
    (hr : ∀ n ∈ (Arena.ofTree base t).nodes.toList, n.isExecutable = true →
      ∀ e ∈ n.extent?, ∃ k, r.hits e = .ok k) :
    ∃ lines, projectLines s (.ofTree base t) r ⟨id, ∅⟩ = (.ok lines, ⟨id, ∅⟩) ∧
      (Arena.ofTree base t).HasLines s r lines := by
  have hruns : ∀ n ∈ t.layout none 0 base, n.countedLine?.isSome →
      ∃ k, (Arena.ofTree base t).runs r n = .ok k := by
    intro n hn hline
    have hexec := Arena.isExecutable_of_countedLine? hline
    exact Arena.runs_ok_of_hits hexec (hr n hn hexec)
  exact ⟨_, projectLines_of_runs hruns ⟨id, ∅⟩, hasLines_enterPairs hruns id⟩

def pairedLines : Tree :=
  let site (line start stop : Nat) : Option Site :=
    some ⟨⟨⟨start, stop⟩, ⟨line, start⟩, ⟨line, stop⟩⟩, none⟩
  .node "begin" [.tree (.node "int" [] (site 1 0 1)), .tree (.node "int" [] (site 1 2 3)),
    .tree (.node "int" [] (site 2 6 7)), .leaf .absent, .tree (.node "int" [] (site 2 4 5)),
    .tree (.node "args" [] (site 3 30 35))] (site 1 0 40)

theorem projectLines_hasLines_pairedLines :
    let r : Recording :=
      ⟨fun e => if e.stop ≤ 10 then .ok (some (e.start / 2)) else .error (.outOfBounds e),
        fun e => .error (.outOfBounds e)⟩
    let s : Settings := { Settings.default with allowPartial := false }
    (∀ n ∈ (Arena.ofTree 5 pairedLines).nodes.toList, n.isExecutable = true →
      ∀ e ∈ n.extent?, ∃ k, r.hits e = .ok k) ∧
    ∃ lines, projectLines s (.ofTree 5 pairedLines) r ⟨11, ∅⟩ = (.ok lines, ⟨11, ∅⟩) ∧
      lines.entries = [(1, 0), (2, 3)] ∧ (Arena.ofTree 5 pairedLines).HasLines s r lines := by
  intro r s
  have hstop : ∀ n ∈ (Arena.ofTree 5 pairedLines).nodes.toList, n.isExecutable = true →
      ∀ e ∈ n.extent?, e.stop ≤ 10 := by
    decide +kernel
  have hr : ∀ n ∈ (Arena.ofTree 5 pairedLines).nodes.toList, n.isExecutable = true →
      ∀ e ∈ n.extent?, ∃ k, r.hits e = .ok k :=
    fun n hn hexec e he => ⟨_, if_pos (hstop n hn hexec e he)⟩
  obtain ⟨lines, hrun, hlines⟩ := projectLines_hasLines s 5 pairedLines r 11 hr
  have hentries : (projectLines s (.ofTree 5 pairedLines) r ⟨11, ∅⟩).1.map (·.entries) =
      .ok [(1, 0), (2, 3)] := by rfl
  rw [hrun] at hentries
  exact ⟨hr, lines, hrun, Except.ok.inj hentries, hlines⟩

end Ledger

end SyntaxCoverage
