import SyntaxCoverage.Proofs.Balance
import SyntaxCoverage.Proofs.Residue

/-!
How large the numbers of a report get and where its spans come from. Counts are taken from the
recording or are what is left of one, so they stay below the largest count; every span is that of a
node; and clauses are numbered by their place among the outcomes.
-/

namespace SyntaxCoverage

open Branch

def Yields {ε α : Type} (P : α → Prop) : Except ε α → Prop
  | .error _ => True
  | .ok v => P v

namespace Yields

variable {ε α β : Type} {P : α → Prop} {Q : β → Prop} {x : Except ε α}

theorem bind {k : α → Except ε β} (h : Yields P x) (hk : ∀ v, P v → Yields Q (k v)) :
    Yields Q (x >>= k) := by
  cases x with
  | error e => trivial
  | ok v => exact hk v h

theorem of_eq_ok (h : ∀ v, x = .ok v → P v) : Yields P x := by
  cases x with
  | error e => trivial
  | ok v => exact h v rfl

theorem of_ok {v : α} (h : Yields P x) (hx : x = .ok v) : P v := by
  rw [hx] at h
  exact h

end Yields

/-- The span of one of the nodes, a count that does not pass the largest one, and no clause beyond
the number of clauses. -/
structure Path.Within (N : Node → Prop) (clauses : Nat) (p : Path) : Prop where
  span : ∃ n, N n ∧ n.span? = some p.span
  hits : p.hits ≤ maxCount
  label : ∀ index, p.label = .clause index → index < clauses

theorem Path.Within.mono {N : Node → Prop} {k k' : Nat} {p : Path} (h : p.Within N k)
    (hk : k ≤ k') : p.Within N k' :=
  ⟨h.span, h.hits, fun index hindex => (h.label index hindex).trans_le hk⟩

theorem Arena.clauseHits_le {total bound : Nat} {thenRuns elseRuns : Option Nat}
    (htotal : total ≤ bound) (hthen : thenRuns.getD 0 ≤ bound) (helse : elseRuns.getD 0 ≤ bound) :
    (clauseHits total thenRuns elseRuns).1 ≤ bound ∧
      (clauseHits total thenRuns elseRuns).2 ≤ bound := by
  cases thenRuns <;> cases elseRuns <;> simp only [clauseHits, Option.getD] at * <;> omega

namespace Arena.Reading

variable {a : Arena} {r : Recording} {N : Node → Prop} {P : RecordingError → Prop} {n : Node}
  {o : Option Node} {span : Span}

theorem placed_spanOr (ho : ∀ m ∈ o, N m) (hspan : ∃ m, N m ∧ m.span? = some span) :
    ∃ m, N m ∧ m.span? = some (spanOr o span) := by
  cases o with
  | none => exact hspan
  | some m =>
    cases hm : m.span? with
    | none =>
      have heq : spanOr (some m) span = span := by simp [spanOr, hm]
      rw [heq]
      exact hspan
    | some span' =>
      have heq : spanOr (some m) span = span' := by simp [spanOr, hm]
      exact ⟨m, ho m rfl, hm.trans (congrArg some heq.symm)⟩

theorem yields_pair {p q : Path} {clauses : Nat} (hp : p.Within N clauses)
    (hq : q.Within N clauses) : ∀ path ∈ [p, q], path.Within N clauses :=
  List.forall_mem_cons.2 ⟨hp, List.forall_mem_singleton.2 hq⟩

variable (hr : r.Bounded)

include hr

theorem yields_runs (n : Node) : Yields (· ≤ maxCount) (a.runs r n) :=
  .of_eq_ok fun _ => runs_le hr

theorem yields_evaluations (n : Node) (o : Option Node) :
    Yields (· ≤ maxCount) (a.evaluations r n o) :=
  .of_eq_ok fun _ hk => (evaluations_eq_ok_iff.1 hk).le hr

theorem yields_runsOf? (o : Option Node) :
    Yields (fun runs => runs.getD 0 ≤ maxCount) (a.runsOf? r o) :=
  .of_eq_ok fun _ hruns => (seen_of_runsOf? hruns).le hr

theorem yields_recordedHits (n : Node) :
    Yields (fun hits => hits.getD 0 ≤ maxCount) (Arena.recordedHits r n) := by
  refine .of_eq_ok fun hits hhits => ?_
  have hruns : Arena.recordedRuns r n = .ok (hits.getD 0) := by
    rw [Arena.recordedRuns, hhits]
    rfl
  exact recordedRuns_le hr hruns

theorem yields_reach (n : Node) : Yields (· ≤ maxCount) (a.reach r n) := yields_runs hr _

theorem yields_safeCallPaths (hn : N n) (hspan : n.span? = some span) (x : Nat) :
    Yields (fun ps => ∀ p ∈ ps, p.Within N ps.length) (a.safeCallPaths r n span x) := by
  refine (yields_evaluations hr n _).bind fun total htotal => ?_
  have hpair : ∀ calls, calls ≤ maxCount → ∀ p ∈ ([⟨.thenPath, span, calls⟩,
      ⟨.elsePath, span, total - calls⟩] : List Path), p.Within N 2 := by
    intro calls hcalls
    have hrest : total - calls ≤ maxCount := (Nat.sub_le ..).trans htotal
    exact yields_pair ⟨⟨n, hn, hspan⟩, hcalls, nofun⟩ ⟨⟨n, hn, hspan⟩, hrest, nofun⟩
  cases n.selector? with
  | none => exact hpair 0 (Nat.zero_le _)
  | some selector =>
    have hcalls : Yields (· ≤ maxCount) ((r.hits selector.extent).map (·.getD 0)) := by
      refine .of_eq_ok fun calls hcalls => ?_
      obtain ⟨hits, hhits, rfl⟩ := map_eq_ok_iff.1 hcalls
      exact (Called.selector hhits).le hr
    exact hcalls.bind hpair

variable (h : a.Reading r N P)

include h

theorem yields_conditionalPaths (hn : N n) (hspan : n.span? = some span) (x y : Nat) :
    Yields (fun ps => ∀ p ∈ ps, p.Within N ps.length) (a.conditionalPaths r n span x y) := by
  have hplaced := fun slot => placed_spanOr (h.locatedAt? hn slot) ⟨n, hn, hspan⟩
  refine .of_eq_ok fun ps hps => ?_
  obtain ⟨total, thenRuns, elseRuns, htotal, hthen, helse, rfl⟩ := conditionalPaths_eq_ok_iff.1 hps
  obtain ⟨hfirst, hsecond⟩ := clauseHits_le ((yields_evaluations hr n _).of_ok htotal)
    ((yields_runsOf? hr _).of_ok hthen) ((yields_runsOf? hr _).of_ok helse)
  exact yields_pair ⟨hplaced x, hfirst, nofun⟩ ⟨hplaced y, hsecond, nofun⟩

theorem yields_shortCircuitPaths (hn : N n) (hspan : n.span? = some span) (op : Connective)
    (x y : Nat) :
    Yields (fun ps => ∀ p ∈ ps, p.Within N ps.length) (a.shortCircuitPaths r n span op x y) := by
  have hplaced := placed_spanOr (h.locatedAt? hn y) ⟨n, hn, hspan⟩
  refine (yields_evaluations hr n _).bind fun total htotal => ?_
  refine (yields_runsOf? hr _).bind fun runs hruns => ?_
  have hrest : total - runs.getD 0 ≤ maxCount := (Nat.sub_le ..).trans htotal
  cases op with
  | and => exact yields_pair ⟨hplaced, hruns, nofun⟩ ⟨⟨n, hn, hspan⟩, hrest, nofun⟩
  | or => exact yields_pair ⟨⟨n, hn, hspan⟩, hrest, nofun⟩ ⟨hplaced, hruns, nofun⟩

theorem yields_loopPaths (hn : N n) (hspan : n.span? = some span) (s : Settings) :
    Yields (fun ps => ∀ p ∈ ps, p.Within N ps.length) (a.loopPaths s r n span) := by
  have hplaced := placed_spanOr (h.locatedAt? hn 1) ⟨n, hn, hspan⟩
  refine (yields_runs hr n).bind fun entries hentries => ?_
  have hpaths : ∀ {clauses iterations}, iterations ≤ maxCount →
      ∀ p ∈ (⟨.body, spanOr (a.locatedAt? n 1) span, iterations⟩ ::
        if s.includeSkip then [⟨.skip, span, entries - iterations⟩] else [] : List Path),
        p.Within N clauses := by
    intro clauses iterations hiterations
    have hrest : entries - iterations ≤ maxCount := (Nat.sub_le ..).trans hentries
    refine List.forall_mem_cons.2 ⟨⟨hplaced, hiterations, nofun⟩, ?_⟩
    split
    · exact List.forall_mem_singleton.2 ⟨⟨n, hn, hspan⟩, hrest, nofun⟩
    · exact fun _ hmem => absurd hmem List.not_mem_nil
  simp only
  split
  · next body _ =>
    exact (yields_runs hr body).bind fun iterations hiterations p => hpaths hiterations p
  · refine (yields_evaluations hr n _).bind fun tests htests p => ?_
    exact hpaths ((Nat.sub_le ..).trans htests) p

theorem yields_loopAfterPaths (hn : N n) (hspan : n.span? = some span) :
    Yields (fun ps => ∀ p ∈ ps, p.Within N ps.length) (a.loopAfterPaths r n span) := by
  have hplaced := placed_spanOr (h.locatedAt? hn 1) ⟨n, hn, hspan⟩
  have hpath : ∀ iterations, iterations ≤ maxCount →
      ∀ p ∈ ([⟨.body, spanOr (a.locatedAt? n 1) span, iterations⟩] : List Path), p.Within N 1 :=
    fun iterations hiterations => List.forall_mem_singleton.2 ⟨hplaced, hiterations, nofun⟩
  unfold Arena.loopAfterPaths
  simp only
  split
  · next hbody => exact (yields_runs hr n).bind (hbody ▸ hpath)
  · next body hbody =>
    split
    · refine (yields_recordedHits hr body).bind fun hits hhits => ?_
      cases hits with
      | none => exact (yields_runs hr n).bind (hbody ▸ hpath)
      | some hits => exact hbody ▸ hpath hits hhits
    · exact (yields_runs hr body).bind (hbody ▸ hpath)

theorem yields_clausePath (hspan : ∃ m, N m ∧ m.span? = some span) (elseBody : Option Node)
    (index : Nat) (hn : N n) (next : Option Node) :
    Yields (Path.Within N (index + 1)) (a.clausePath r span elseBody index n next) := by
  have hlabel : ∀ i, Label.clause index = .clause i → i < index + 1 := by
    rintro i heq
    obtain rfl := Label.clause.inj heq
    exact Nat.lt_succ_self _
  have hbody := h.lastClause? hn
  have hmem : ∀ m ∈ some n, N m := fun m hm => Option.mem_some_iff.1 hm ▸ hn
  unfold Arena.clausePath
  split
  · next body heq =>
    rw [heq] at hbody
    have hplaced := placed_spanOr hbody hspan
    exact (yields_runs hr body).bind fun runs hruns => ⟨hplaced, hruns, hlabel⟩
  · have hplaced := placed_spanOr hmem hspan
    have hempty : ∀ hits, hits ≤ maxCount → Path.Within N (index + 1)
        ⟨.clause index, spanOr (some n) span, hits⟩ := fun hits hhits => ⟨hplaced, hhits, hlabel⟩
    have hafter : Yields (fun _ => True) (a.reachAfter r next elseBody) :=
      .of_eq_ok fun _ _ => trivial
    refine hafter.bind fun after _ => ?_
    cases after with
    | none => exact hempty 0 (Nat.zero_le _)
    | some after =>
      refine (yields_reach hr n).bind fun reached hreached => ?_
      exact hempty _ ((Nat.sub_le ..).trans hreached)

theorem yields_clausePaths (hspan : ∃ m, N m ∧ m.span? = some span) (elseBody : Option Node)
    (index : Nat) {clauses : List Node} (hclauses : ∀ m ∈ clauses, N m) :
    Yields (fun ps => ps.length = clauses.length ∧
      ∀ p ∈ ps, p.Within N (index + clauses.length))
      (a.clausePaths r span elseBody index clauses) := by
  induction clauses generalizing index with
  | nil => exact ⟨rfl, fun _ hmem => absurd hmem List.not_mem_nil⟩
  | cons clause clauses ih =>
    obtain ⟨hclause, hrest⟩ := List.forall_mem_cons.1 hclauses
    refine (h.yields_clausePath hr hspan elseBody index hclause _).bind fun path hpath => ?_
    refine (ih (index + 1) hrest).bind fun paths ⟨hlength, hpaths⟩ => ?_
    have hfirst : path.Within N (index + (clause :: clauses).length) :=
      hpath.mono (Nat.add_le_add_left (Nat.succ_le_succ (Nat.zero_le _)) index)
    refine ⟨congrArg (· + 1) hlength, List.forall_mem_cons.2 ⟨hfirst, fun p hp => ?_⟩⟩
    exact (hpaths p hp).mono (Nat.succ_add_eq_add_succ index clauses.length).le

theorem yields_casePaths (hn : N n) (hspan : n.span? = some span) :
    Yields (fun ps => ∀ p ∈ ps, p.Within N ps.length) (a.casePaths r n span) := by
  have hbody := h.elseBody? hn
  have hclauses : ∀ m ∈ a.whenClauses n, N m :=
    fun m hm => h.children hn m (List.mem_of_mem_filter hm)
  refine (h.yields_clausePaths hr ⟨n, hn, hspan⟩ (a.elseBody? n) 0 hclauses).bind
    fun paths ⟨hlength, hpaths⟩ => ?_
  rw [Nat.zero_add, ← hlength] at hpaths
  split
  · next body heq =>
    rw [heq] at hbody
    have hplaced := placed_spanOr hbody ⟨n, hn, hspan⟩
    refine (yields_runs hr body).bind fun runs hruns => ?_
    refine List.forall_mem_append.2 ⟨fun p hp => ?_, ?_⟩
    · exact (hpaths p hp).mono (List.length_append ▸ Nat.le_add_right ..)
    · exact List.forall_mem_singleton.2 ⟨hplaced, hruns, nofun⟩
  · exact hpaths

theorem yields_paths (hn : N n) (hspan : n.span? = some span) (s : Settings) :
    Yields (fun ps => ∀ p ∈ ps, p.Within N ps.length) (a.paths s r n span) := by
  unfold Arena.paths
  split
  · exact h.yields_conditionalPaths hr hn hspan _ _
  · exact h.yields_casePaths hr hn hspan
  · exact h.yields_shortCircuitPaths hr hn hspan _ _ _
  · exact yields_safeCallPaths hr hn hspan _
  · exact h.yields_loopPaths hr hn hspan s
  · exact h.yields_loopAfterPaths hr hn hspan
  all_goals exact fun _ hmem => absurd hmem List.not_mem_nil

end Arena.Reading

theorem Branch.length_le_totalOutcomes {es : List Entry} {e : Entry} (h : e ∈ es) :
    e.outcomes.length ≤ totalOutcomes es := by
  induction es with
  | nil => exact absurd h List.not_mem_nil
  | cons other es ih =>
    show _ ≤ other.outcomes.length + totalOutcomes es
    rcases List.mem_cons.1 h with rfl | h
    · exact Nat.le_add_right ..
    · exact (ih h).trans (Nat.le_add_left ..)

theorem Settings.le_of_lineTotal? {s : Settings} {runs : List Nat} {bound k : Nat}
    (hruns : ∀ j ∈ runs, j ≤ bound) (h : s.lineTotal? runs = some k) : k ≤ bound := by
  rw [lineTotal?] at h
  split at h
  · obtain rfl := Option.some.inj h
    exact Nat.zero_le _
  · exact hruns k (List.max?_eq_some_iff.1 h).1

theorem Ledger.hasLines_of_projectLines {s : Settings} {base id : Nat} {t : Tree} {r : Recording}
    {lines : LineHits} (h : (projectLines s (.ofTree base t) r ⟨id, ∅⟩).1 = .ok lines) :
    (Arena.ofTree base t).HasLines s r lines := by
  have hknown := runsKnown_of_enterNodes (enterLines_of_projectLines_ok h)
  rw [Arena.walkAll_pre] at hknown
  rw [projectLines_of_runs hknown] at h
  obtain rfl := Except.ok.inj h
  exact hasLines_enterPairs hknown id

/-- What a report takes from its tree: the lines and spans are those of sites, the counts do not pass
the largest one, and all ids are below the number of nodes and outcomes together. -/
structure Report.TakenFrom (p : Report) (t : Tree) : Prop where
  lines : ∀ e ∈ p.lines.entries, (∃ site ∈ t.sites, site.whole.firstLine = e.1) ∧ e.2 ≤ maxCount
  keys : ∀ e ∈ p.branches, (∃ site ∈ t.sites, site.whole = e.key.span) ∧ e.key.id < t.size
  spans : ∀ e ∈ p.branches, ∀ o ∈ e.outcomes, ∃ site ∈ t.sites, site.whole = o.span
  hits : ∀ e ∈ p.branches, ∀ o ∈ e.outcomes, o.hits ≤ maxCount
  ids : ∀ e ∈ p.branches, ∀ o ∈ e.outcomes, o.id < t.size + totalOutcomes p.branches
  labels : ∀ e ∈ p.branches, ∀ o ∈ e.outcomes, ∀ index, o.label = .clause index →
    index < totalOutcomes p.branches
  nodeCount : p.nodeCount = t.size

section Analysed

variable {s : Settings} {t : Tree} {r : Recording} {unit : String} {p : Report}

theorem Tree.site_of_span? {n : Node} {span : Span} (hn : n ∈ t.layout none 0 0)
    (hspan : n.span? = some span) : ∃ site ∈ t.sites, site.whole = span := by
  obtain ⟨site, hsite, rfl⟩ := Option.map_eq_some_iff.1 hspan
  exact ⟨site, mem_sites_of_mem_layout hn hsite, rfl⟩

theorem Arena.HasLines.takenFrom {lines : LineHits} (hr : r.Bounded)
    (h : (Arena.ofTree 0 t).HasLines s r lines) :
    ∀ e ∈ lines.entries, (∃ site ∈ t.sites, site.whole.firstLine = e.1) ∧ e.2 ≤ maxCount := by
  rintro ⟨line, k⟩ hmem
  have hfind := SortedMap.find?_eq_some_iff.2 hmem
  obtain ⟨hfirst, n, hn, hstart⟩ := (h.keys line).1 (by rw [hfind]; rfl)
  constructor
  · rw [Node.startsOn_iff, Node.countedLine?, Option.ite_none_right_eq_some] at hstart
    obtain ⟨span, hspan, hline⟩ := Option.map_eq_some_iff.1 hstart.2
    obtain ⟨site, hsite, rfl⟩ := Tree.site_of_span? hn hspan
    exact ⟨site, hsite, hline⟩
  · refine s.le_of_lineTotal? (fun j hj => ?_) ((h.hits line hfirst).symm.trans hfind)
    obtain ⟨m, -, -, hruns⟩ := Arena.mem_runsStarting.1 hj
    exact Arena.runs_le hr hruns

theorem Ledger.exists_reported_within {l l' : Ledger} {es : List Entry} {e : Entry}
    (hr : r.Bounded) (h : l.entries s (.ofTree 0 t) r = (.ok es, l')) (he : e ∈ es) :
    ∃ n ∈ t.layout none 0 0, n.ReportedAs e ∧
      ∀ o ∈ e.outcomes, o.path.Within (· ∈ t.layout none 0 0) e.outcomes.length := by
  obtain ⟨n, hn, l, hentry⟩ := exists_entry_of_mem h he
  have hmem := (Arena.walkAll_perm .post 0 t).subset (List.mem_of_mem_filter hn)
  obtain ⟨hreported, ps, hps, heq⟩ := paths_of_entry hentry
  have hreading := (Arena.stands_ofTree 0 t).reading r
  have hwithin := (hreading.yields_paths hr hmem hreported.span s).of_ok hps
  have houtcomes : e.outcomes = Path.number l.nextId ps := by rw [heq]
  refine ⟨n, hmem, hreported, fun o ho => ?_⟩
  rw [houtcomes, Path.length_number]
  rw [houtcomes] at ho
  exact hwithin _ (Path.path_number l.nextId ps ▸ List.mem_map_of_mem ho)

theorem Settings.takenFrom_of_analyse (hr : r.Bounded) (h : s.analyse unit t r = .ok p) :
    p.TakenFrom t := by
  obtain ⟨-, hlines, hentries, hcount⟩ := analyse_eq_ok_iff.1 h
  have hrun : (Ledger.afterBuild t).entries s (.ofTree 0 t) r = (.ok p.branches, _) :=
    Prod.ext hentries rfl
  have hmade := fun {e} (he : e ∈ p.branches) => Ledger.exists_reported_within hr hrun he
  constructor
  · exact (Ledger.hasLines_of_projectLines hlines).takenFrom hr
  · intro e he
    obtain ⟨n, hn, hreported, -⟩ := hmade he
    have hid : n.id ∈ List.range' 0 t.size :=
      Arena.ids_ofTree 0 t ▸ List.mem_map_of_mem (f := Node.id) hn
    rw [← hreported.id]
    exact ⟨Tree.site_of_span? hn hreported.span, by simpa using hid⟩
  · intro e he o ho
    obtain ⟨-, -, -, hpaths⟩ := hmade he
    obtain ⟨n, hn, hspan⟩ := (hpaths o ho).span
    exact Tree.site_of_span? hn hspan
  · intro e he o ho
    obtain ⟨-, -, -, hpaths⟩ := hmade he
    exact (hpaths o ho).hits
  · intro e he o ho
    have hmem : o.id ∈ p.branches.flatMap Entry.outcomeIds :=
      List.mem_flatMap.2 ⟨e, he, List.mem_map_of_mem ho⟩
    rw [(Ledger.entriesOf_ok hrun).1.ids] at hmem
    exact (List.mem_range'_1.1 hmem).2
  · intro e he o ho index hindex
    obtain ⟨-, -, -, hpaths⟩ := hmade he
    exact ((hpaths o ho).label index hindex).trans_le (length_le_totalOutcomes he)
  · exact hcount

end Analysed

end SyntaxCoverage
