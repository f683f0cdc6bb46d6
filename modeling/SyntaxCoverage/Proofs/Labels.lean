import SyntaxCoverage.Proofs.Clauses
import SyntaxCoverage.Proofs.Magnitude

/-!
The labels of an entry. They depend on the shape of the tree and on whether skipped loops are
reported, and on no count, and no label stands for two outcomes of an entry.
Main statement: `Ledger.entry_labels`.
-/

namespace SyntaxCoverage

open Branch Relation

def Tree.labels (skip : Bool) (t : Tree) : Kind → List Label
  | .conditional => [.thenPath, .elsePath]
  | .caseOf => (List.range t.whenSlots.length).map .clause ++
      if t.lastTree?.any fun u => u.kind != "when" then [.elsePath] else []
  | .and => [.thenPath, .elsePath]
  | .or => [.thenPath, .elsePath]
  | .safeCall => [.thenPath, .elsePath]
  | .loop => if skip then [.body, .skip] else [.body]
  | .loopAfter => [.body]

theorem Tree.nodup_labels (skip : Bool) (t : Tree) (kind : Kind) : (t.labels skip kind).Nodup := by
  cases kind with
  | caseOf =>
    have hclauses : ((List.range t.whenSlots.length).map Label.clause).Nodup :=
      List.nodup_range.map fun _ _ => Label.clause.inj
    rw [labels]
    split
    · refine List.nodup_append'.2 ⟨hclauses, List.nodup_singleton _, ?_⟩
      simp
    · rwa [List.append_nil]
  | loop => cases skip <;> simp [labels]
  | _ => simp [labels]

/-- The entry has these labels, in this order, and one outcome for each of them. -/
structure Branch.Entry.LabelledAs (e : Entry) (ls : List Label) : Prop where
  labels : e.outcomes.map (·.label) = ls
  nodup : ls.Nodup
  only : ∀ label o, e.outcome? label = some o ↔ o ∈ e.outcomes ∧ o.label = label

theorem Branch.find?_label_eq_some_iff {os : List Outcome} (h : (os.map (·.label)).Nodup)
    {label : Label} {o : Outcome} :
    (os.find? fun o => o.label == label) = some o ↔ o ∈ os ∧ o.label = label := by
  induction os with
  | nil => simp
  | cons first os ih =>
    rw [List.map_cons, List.nodup_cons] at h
    rw [List.find?_cons]
    split
    · next hlabel =>
      obtain rfl := eq_of_beq hlabel
      constructor
      · rintro ⟨⟩
        exact ⟨List.mem_cons_self .., rfl⟩
      · rintro ⟨hmem, heq⟩
        rcases List.mem_cons.1 hmem with rfl | hmem
        · rfl
        · exact absurd (heq ▸ List.mem_map_of_mem hmem) h.1
    · next hlabel =>
      have hne : first.label ≠ label := by simpa using hlabel
      rw [ih h.2, List.mem_cons]
      constructor
      · rintro ⟨hmem, heq⟩
        exact ⟨.inr hmem, heq⟩
      · rintro ⟨rfl | hmem, heq⟩
        · exact absurd heq hne
        · exact ⟨hmem, heq⟩

theorem Branch.labelledAs_of_paths {key : Key} {id : Nat} {ps : List Path} {labels : List Label}
    (hps : ps.map (·.label) = labels) (hnodup : labels.Nodup) :
    Entry.LabelledAs ⟨key, Path.number id ps⟩ labels := by
  have hlabels : (Path.number id ps).map (·.label) = labels :=
    (Path.map_number Path.label id ps).trans hps
  exact ⟨hlabels, hnodup, fun _ _ => find?_label_eq_some_iff (hlabels ▸ hnodup)⟩

theorem Yields.bind_any {ε α β : Type} {Q : β → Prop} {x : Except ε α} {k : α → Except ε β}
    (hk : ∀ v, Yields Q (k v)) : Yields Q (x >>= k) := by
  cases x with
  | error e => trivial
  | ok v => exact hk v

namespace Arena

variable {a : Arena} {s : Settings} {r : Recording} {n : Node} {span : Span}

theorem labels_conditionalPaths (x y : Nat) :
    Yields (fun ps => ps.map (·.label) = [.thenPath, .elsePath])
      (a.conditionalPaths r n span x y) := by
  refine .of_eq_ok fun ps hps => ?_
  obtain ⟨_, _, _, -, -, -, rfl⟩ := conditionalPaths_eq_ok_iff.1 hps
  rfl

theorem labels_shortCircuitPaths (op : Connective) (x y : Nat) :
    Yields (fun ps => ps.map (·.label) = [.thenPath, .elsePath])
      (a.shortCircuitPaths r n span op x y) := by
  refine .bind_any fun total => .bind_any fun runs => ?_
  cases op <;> rfl

theorem labels_safeCallPaths (x : Nat) :
    Yields (fun ps => ps.map (·.label) = [.thenPath, .elsePath])
      (a.safeCallPaths r n span x) := by
  refine .bind_any fun total => ?_
  cases n.selector? with
  | none => rfl
  | some selector => exact .bind_any fun calls => rfl

theorem labels_loopPaths :
    Yields (fun ps => ps.map (·.label) = if s.includeSkip then [.body, .skip] else [.body])
      (a.loopPaths s r n span) := by
  refine .bind_any fun entries => ?_
  simp only
  cases a.locatedAt? n 1 with
  | none => exact .bind_any fun tests => by cases s.includeSkip <;> rfl
  | some body => exact .bind_any fun iterations => by cases s.includeSkip <;> rfl

theorem labels_loopAfterPaths :
    Yields (fun ps => ps.map (·.label) = [.body]) (a.loopAfterPaths r n span) := by
  unfold loopAfterPaths
  simp only
  cases a.locatedAt? n 1 with
  | none => exact .bind_any fun iterations => rfl
  | some body =>
    simp only
    split
    · refine .bind_any fun hits => ?_
      cases hits with
      | none => exact .bind_any fun iterations => rfl
      | some _ => rfl
    · exact .bind_any fun iterations => rfl

theorem label_clausePath (elseBody : Option Node) (index : Nat) (next : Option Node) :
    Yields (fun p => p.label = .clause index) (a.clausePath r span elseBody index n next) := by
  unfold clausePath
  split
  · exact .bind_any fun runs => rfl
  · refine .bind_any fun after => ?_
    cases after with
    | none => rfl
    | some _ => exact .bind_any fun runs => rfl

theorem labels_clausePaths (elseBody : Option Node) (index : Nat) (clauses : List Node) :
    Yields (fun ps => ps.map (·.label) = (List.range' index clauses.length).map .clause)
      (a.clausePaths r span elseBody index clauses) := by
  induction clauses generalizing index with
  | nil => rfl
  | cons clause clauses ih =>
    refine (label_clausePath elseBody index _).bind fun path hpath => ?_
    refine (ih (index + 1)).bind fun paths hpaths => ?_
    show path.label :: paths.map (·.label) = _
    rw [hpath, hpaths]
    rfl

theorem labels_casePaths :
    Yields (fun ps => ps.map (·.label) = (List.range (a.whenClauses n).length).map .clause ++
      if (a.elseBody? n).isSome then [.elsePath] else []) (a.casePaths r n span) := by
  refine (labels_clausePaths (a.elseBody? n) 0 (a.whenClauses n)).bind fun paths hpaths => ?_
  rw [← List.range_eq_range'] at hpaths
  cases a.elseBody? n with
  | none => exact hpaths.trans (List.append_nil _).symm
  | some body =>
    refine .bind_any fun runs => ?_
    show List.map _ (paths ++ _) = _
    rw [List.map_append, hpaths]
    rfl

theorem Stands.labels_paths {p : Placed} (h : a.Stands p) {kind : Kind}
    (hkind : p.root.construct.branchKind? = some kind) :
    Yields (fun ps => ps.map (·.label) = p.tree.labels s.includeSkip kind)
      (a.paths s r p.root span) := by
  unfold Arena.paths
  cases hc : p.root.construct with
  | conditional x y =>
    obtain rfl := Option.some.inj (hc ▸ hkind)
    exact labels_conditionalPaths x y
  | caseOf =>
    obtain rfl := Option.some.inj (hc ▸ hkind)
    have hlabels := @labels_casePaths a r p.root span
    have helse : (a.elseBody? p.root).isSome = p.tree.lastTree?.any fun u => u.kind != "when" := by
      rw [h.elseBody?_root hc, Option.isSome_map, Placed.elseBody?, Option.isSome_filter,
        ← Placed.map_tree_last?, Option.any_map]
    rw [h.whenClauses_root hc, List.length_map, Placed.length_clauses, helse] at hlabels
    exact hlabels
  | shortCircuit op x y =>
    obtain rfl := Option.some.inj (hc ▸ hkind)
    cases op with
    | and => exact labels_shortCircuitPaths .and x y
    | or => exact labels_shortCircuitPaths .or x y
  | safeCall x =>
    obtain rfl := Option.some.inj (hc ▸ hkind)
    exact labels_safeCallPaths x
  | loop test negated =>
    obtain rfl := Option.some.inj (hc ▸ hkind)
    cases test with
    | before => exact labels_loopPaths
    | after => exact labels_loopAfterPaths
  | _ =>
    rw [hc] at hkind
    simp [Construct.branchKind?] at hkind

end Arena

namespace Ledger

variable {s : Settings} {r : Recording} {base : Nat} {t : Tree} {q : Placed} {l l' : Ledger}

theorem labelledAs_of_entry (hq : ReflTransGen Placed.HasPart (.whole base t) q) {e : Entry}
    (h : (l.entry s (.ofTree base t) r q.root).1 = .ok (some e)) :
    q.root.ReportedAs e ∧ e.LabelledAs (q.tree.labels s.includeSkip e.key.kind) := by
  obtain ⟨hreported, ps, hps, he⟩ := paths_of_entry h
  have hstands := (Arena.stands_ofTree base t).of_reflTransGen hq
  have hlabels := (hstands.labels_paths hreported.kind).of_ok hps
  refine ⟨hreported, ?_⟩
  rw [he]
  exact labelledAs_of_paths hlabels (Tree.nodup_labels ..)

/-- The labels of an entry follow from its tree and the settings alone. They stand in the order of
the tree, and each of them is the label of one outcome. -/
theorem entry_labels (s : Settings) (t : Tree) (r : Recording) :
    (∀ base q, ReflTransGen Placed.HasPart (.whole base t) q → ∀ l : Ledger,
      (r.AnswersFor t → q.root.isReported = true →
        ∃ e, (l.entry s (.ofTree base t) r q.root).1 = .ok (some e)) ∧
      ∀ e, (l.entry s (.ofTree base t) r q.root).1 = .ok (some e) →
        q.root.ReportedAs e ∧ e.LabelledAs (q.tree.labels s.includeSkip e.key.kind)) ∧
    ∀ base (l l' : Ledger) es, l.entries s (.ofTree base t) r = (.ok es, l') → ∀ e ∈ es,
      ∃ q, ReflTransGen Placed.HasPart (.whole base t) q ∧ q.root.ReportedAs e ∧
        e.LabelledAs (q.tree.labels s.includeSkip e.key.kind) := by
  constructor
  · intro base q hq l
    refine ⟨fun hr hreported => ?_, fun e he => labelledAs_of_entry hq he⟩
    exact exists_entry hr (Placed.mem_nodes_of_reflTransGen hq) hreported l
  · intro base l l' es hes e he
    obtain ⟨n, hn, l, hentry⟩ := exists_entry_of_mem hes he
    have hmem := (Arena.walkAll_perm .post base t).subset (List.mem_of_mem_filter hn)
    obtain ⟨q, hq, rfl⟩ := Arena.exists_placed hmem
    exact ⟨q, hq, labelledAs_of_entry hq hentry⟩

def mixedCase : Tree :=
  let span (start stop : Nat) : Span := ⟨⟨start, stop⟩, ⟨1, start⟩, ⟨1, stop⟩⟩
  let name (start : Nat) : Item := .tree (.node "lvar" [] (some ⟨span start (start + 1), none⟩))
  .node "case" [.tree (.node "when" [name 5] (some ⟨span 5 6, none⟩)),
    .tree (.node "when" [name 12, .leaf .absent] (some ⟨span 7 13, none⟩)),
    .tree (.node "int" [] none),
    .tree (.node "when" [name 19, .tree (.node "begin" [] none)] none),
    .tree (.node "while" [name 31, .leaf .absent] (some ⟨span 25 36, none⟩))]
    (some ⟨span 0 40, none⟩)

theorem entry_labels_mixedCase :
    let r : Recording := ⟨fun e => .ok (some (40 - e.start)), fun _ => .ok none⟩
    let s : Settings := { Settings.default with includeSkip := false }
    (ReflTransGen Placed.HasPart (.whole 3 mixedCase) (.whole 3 mixedCase) ∧
      r.AnswersFor mixedCase ∧ (Placed.whole 3 mixedCase).root.isReported = true) ∧
    (∃ e, (entry s (.ofTree 3 mixedCase) r (Placed.whole 3 mixedCase).root ⟨40, ∅⟩).1 =
        .ok (some e) ∧
      e.LabelledAs [.clause 0, .clause 1, .elsePath]) ∧
    ∃ es l', entries s (.ofTree 3 mixedCase) r ⟨40, ∅⟩ = (.ok es, l') ∧
      es.map (fun e => e.outcomes.map (·.label)) =
        [[.body], [.clause 0, .clause 1, .elsePath]] ∧
      ∀ e ∈ es, ∃ q, ReflTransGen Placed.HasPart (.whole 3 mixedCase) q ∧ q.root.ReportedAs e ∧
        e.LabelledAs (q.tree.labels s.includeSkip e.key.kind) := by
  intro r s
  have hr : r.AnswersFor mixedCase := ⟨fun _ _ _ _ => ⟨_, rfl⟩, fun _ _ => ⟨_, rfl⟩⟩
  have hreported : (Placed.whole 3 mixedCase).root.isReported = true := by
    decide +kernel
  obtain ⟨hnode, hall⟩ := entry_labels s mixedCase r
  refine ⟨⟨.refl, hr, hreported⟩, ?_, ?_⟩
  · obtain ⟨hexists, hlabels⟩ := hnode 3 _ .refl ⟨40, ∅⟩
    obtain ⟨e, he⟩ := hexists hr hreported
    obtain ⟨hkind, hlabelled⟩ := hlabels e he
    have hcase : (Placed.whole 3 mixedCase).root.construct.branchKind? = some .caseOf := by
      decide +kernel
    rw [← Option.some.inj (hcase.symm.trans hkind.kind)] at hlabelled
    exact ⟨e, he, hlabelled⟩
  · have hlists : (entries s (.ofTree 3 mixedCase) r ⟨40, ∅⟩).1.map
        (List.map fun e => e.outcomes.map (·.label)) =
          .ok [[.body], [.clause 0, .clause 1, .elsePath]] := by rfl
    obtain ⟨es, hes, hlists⟩ := map_eq_ok_iff.1 hlists
    exact ⟨es, _, Prod.ext hes rfl, hlists, hall 3 _ _ es (Prod.ext hes rfl)⟩

end Ledger

end SyntaxCoverage
