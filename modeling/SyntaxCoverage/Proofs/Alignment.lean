import SyntaxCoverage.Proofs.Numbering
import SyntaxCoverage.Proofs.Pairing

/-!
Arenas paired off in place. Where paired nodes have the same id and the same children, both arenas
are walked in step, and their entries differ at most in their spans.
-/

namespace SyntaxCoverage

section Relations

variable {α β : Type} {R : α → β → Prop}

theorem rel_join {o : Option (Option α)} {o' : Option (Option β)}
    (h : Option.Rel (Option.Rel R) o o') : Option.Rel R o.join o'.join := by
  cases h with
  | none => exact .none
  | some h => exact h

theorem rel_filter? {p : α → Bool} {q : β → Bool} {o : Option α} {o' : Option β}
    (hpq : ∀ {x y}, R x y → q y = p x) (h : Option.Rel R o o') :
    Option.Rel R (o.filter p) (o'.filter q) := by
  cases h with
  | none => exact .none
  | @some x y hxy =>
    simp only [Option.filter_some, hpq hxy]
    cases p x
    · exact .none
    · exact .some hxy

theorem rel_filter_list {p : α → Bool} {q : β → Bool} {xs : List α} {ys : List β}
    (hpq : ∀ {x y}, R x y → q y = p x) (h : List.Forall₂ R xs ys) :
    List.Forall₂ R (xs.filter p) (ys.filter q) := by
  refine List.rel_filter (fun x y hxy => ?_) h
  show p x = true ↔ q y = true
  rw [hpq hxy]

theorem rel_getElem? {xs : List α} {ys : List β} (h : List.Forall₂ R xs ys) (k : Nat) :
    Option.Rel R xs[k]? ys[k]? := by
  induction h generalizing k with
  | nil => exact .none
  | cons hxy _ ih =>
    cases k with
    | zero => exact .some hxy
    | succ k => exact ih k

theorem rel_reduceOption {xs : List (Option α)} {ys : List (Option β)}
    (h : List.Forall₂ (Option.Rel R) xs ys) :
    List.Forall₂ R xs.reduceOption ys.reduceOption :=
  List.rel_filterMap (fun _ _ hxy => hxy) h

theorem isEmpty_of_rel {xs : List α} {ys : List β} (h : List.Forall₂ R xs ys) :
    ys.isEmpty = xs.isEmpty := by
  cases h <;> rfl

theorem map_eq_of_rel {γ : Type} {F : α → γ} {G : β → γ} {xs : List α} {ys : List β}
    (h : List.Forall₂ R xs ys) (hFG : ∀ {x y}, R x y → G y = F x) : ys.map G = xs.map F := by
  induction h with
  | nil => rfl
  | cons hxy _ ih => rw [List.map_cons, List.map_cons, ih, hFG hxy]

theorem filterMap_eq_of_rel {γ : Type} {F : α → Option γ} {G : β → Option γ} {xs : List α}
    {ys : List β} (h : List.Forall₂ R xs ys) (hFG : ∀ {x y}, R x y → G y = F x) :
    ys.filterMap G = xs.filterMap F := by
  induction h with
  | nil => rfl
  | cons hxy _ ih => rw [List.filterMap_cons, List.filterMap_cons, ih, hFG hxy]

theorem exists_rel_of_forall {xs : List α} (h : ∀ x ∈ xs, ∃ y, R x y) :
    ∃ ys, List.Forall₂ R xs ys := by
  induction xs with
  | nil => exact ⟨[], .nil⟩
  | cons x xs ih =>
    obtain ⟨y, hy⟩ := h x (List.mem_cons_self ..)
    obtain ⟨ys, hys⟩ := ih fun z hz => h z (List.mem_cons_of_mem _ hz)
    exact ⟨y :: ys, .cons hy hys⟩

end Relations

/-- Constructs with the same ways through them; only what ends a loop may differ. -/
inductive Construct.SameWays : Construct → Construct → Prop
  | refl (c : Construct) : SameWays c c
  | loop (test : LoopTest) (negated negated' : Bool) :
    SameWays (.loop test negated) (.loop test negated')

def Branch.Outcome.relocate (f : Span → Span) (o : Outcome) : Outcome :=
  { o with span := f o.span }

def Branch.Entry.relocate (f : Span → Span) (e : Entry) : Entry :=
  ⟨{ e.key with span := f e.key.span }, e.outcomes.map (Outcome.relocate f)⟩

theorem Path.number_relocate (f : Span → Span) (id : Nat) (ps : List Path) :
    Path.number id (ps.map (relocate f)) = (Path.number id ps).map (.relocate f) := by
  induction ps generalizing id with
  | nil => rfl
  | cons p ps ih =>
    rw [List.map_cons, number, ih, number, List.map_cons]
    rfl

namespace Arena

section Slots

variable {a a' : Arena} {R : Node → Node → Prop} {n n' : Node}

theorem rel_childAt? (h : List.Forall₂ (Option.Rel R) (a.slots n) (a'.slots n')) (k : Nat) :
    Option.Rel R (a.childAt? n k) (a'.childAt? n' k) := by
  rw [childAt?_eq, childAt?_eq]
  exact rel_join (rel_getElem? h k)

theorem rel_children (h : List.Forall₂ (Option.Rel R) (a.slots n) (a'.slots n')) :
    List.Forall₂ R (a.children n) (a'.children n') := by
  rw [children_eq, children_eq]
  exact rel_reduceOption h

theorem length_items (h : List.Forall₂ (Option.Rel R) (a.slots n) (a'.slots n')) :
    n'.items.length = n.items.length := by
  rw [← a.length_slots n, ← a'.length_slots n', h.length_eq]

theorem rel_locatedChildren (hloc : ∀ {m m'}, R m m' → m'.isLocated = m.isLocated)
    (h : List.Forall₂ R (a.children n) (a'.children n')) :
    List.Forall₂ R (a.locatedChildren n) (a'.locatedChildren n') :=
  rel_filter_list hloc h

theorem isEmpty_locatedChildren (hloc : ∀ {m m'}, R m m' → m'.isLocated = m.isLocated)
    (h : List.Forall₂ R (a.children n) (a'.children n')) :
    (a'.locatedChildren n').isEmpty = (a.locatedChildren n).isEmpty :=
  isEmpty_of_rel (rel_locatedChildren hloc h)

theorem alike_of_slots (hc : n.construct.SameWays n'.construct)
    (hloc : ∀ {m m'}, R m m' → m'.isLocated = m.isLocated)
    (hwhen : ∀ {m m'}, R m m' → isWhen m' = isWhen m)
    (h : List.Forall₂ (Option.Rel R) (a.slots n) (a'.slots n')) : Alike a a' R n n' := by
  have hat : ∀ k, Option.Rel R (a.locatedAt? n k) (a'.locatedAt? n' k) :=
    fun k => rel_filter? hloc (rel_childAt? h k)
  have hlast : Option.Rel R (a.lastClause? n) (a'.lastClause? n') := by
    unfold lastClause?
    rw [length_items h]
    split
    · exact hat _
    · exact .none
  generalize hn : n.construct = c, hn' : n'.construct = c' at hc
  cases hc with
  | refl =>
    cases c with
    | generic => exact .generic hn hn'
    | marker => exact .marker hn hn'
    | sequence => exact .sequence hn hn' (rel_locatedChildren hloc (rel_children h))
    | conditional x y => exact .conditional hn hn' (hat 0) (hat x) (hat y)
    | caseOf =>
      have hclauses : List.Forall₂ R (a.whenClauses n) (a'.whenClauses n') :=
        rel_filter_list hwhen (rel_children h)
      exact .caseOf hn hn' hclauses (rel_filter? (fun hm => by rw [hwhen hm]) hlast)
    | whenClause => exact .whenClause hn hn' (hat 0) hlast
    | shortCircuit op x y => exact .shortCircuit hn hn' (hat x) (hat y)
    | safeCall x => exact .safeCall hn hn' (hat x)
    | loop test negated => exact .loop hn hn' (hat 0) (hat 1)
  | loop test negated negated' => exact .loop hn hn' (hat 0) (hat 1)

/-! Nodes related in place: the same id leads to related nodes. -/

theorem rel_node? (hbase : a'.base = a.base) (h : List.Forall₂ R a.nodes.toList a'.nodes.toList)
    (id : Nat) : Option.Rel R (a.node? id) (a'.node? id) := by
  unfold node?
  rw [hbase]
  split
  · simpa using rel_getElem? h (id - a.base)
  · exact .none

theorem rel_root? (h : List.Forall₂ R a.nodes.toList a'.nodes.toList) :
    Option.Rel R a.root? a'.root? := by
  simpa [root?] using rel_getElem? h 0

theorem rel_resolve (h : ∀ id, Option.Rel R (a.node? id) (a'.node? id)) (item : Ref) :
    Option.Rel R (a.resolve item) (a'.resolve item) := by
  cases item with
  | node id => exact h id
  | leaf l => exact .none

theorem rel_slots (h : ∀ id, Option.Rel R (a.node? id) (a'.node? id))
    (hitems : n'.items = n.items) :
    List.Forall₂ (Option.Rel R) (a.slots n) (a'.slots n') := by
  unfold slots
  rw [hitems, List.forall₂_map_left_iff, List.forall₂_map_right_iff, List.forall₂_same]
  exact fun item _ => rel_resolve h item

theorem rel_locatedAt? (hloc : ∀ {m m'}, R m m' → m'.isLocated = m.isLocated)
    (h : ∀ id, Option.Rel R (a.node? id) (a'.node? id)) {x x' : Nat}
    (hitem : n'.items[x']? = n.items[x]?) :
    Option.Rel R (a.locatedAt? n x) (a'.locatedAt? n' x') := by
  refine rel_filter? hloc ?_
  unfold childAt?
  rw [hitem]
  cases n.items[x]? with
  | none => exact .none
  | some item => exact rel_resolve h item

theorem rel_children_of_refs (h : ∀ id, Option.Rel R (a.node? id) (a'.node? id))
    (hids : n'.items.filterMap Ref.node? = n.items.filterMap Ref.node?) :
    List.Forall₂ R (a.children n) (a'.children n') := by
  have hchildren : ∀ (a : Arena) (n : Node),
      a.children n = (n.items.filterMap Ref.node?).filterMap a.node? := by
    intro a n
    rw [List.filterMap_filterMap]
    rfl
  rw [hchildren, hchildren, hids]
  refine List.rel_filterMap (R := Eq) ?_ (List.forall₂_same.2 fun _ _ => rfl)
  rintro id _ rfl
  exact h id

end Slots

structure Aligned (a a' : Arena) (r r' : Recording) (f : Span → Span)
    (R : Node → Node → Prop) : Prop extends Pairing a a' r r' f R where
  size : a'.size = a.size
  sameId : ∀ {n n'}, R n n' → n'.id = n.id
  children : ∀ {n n'}, R n n' → List.Forall₂ R (a.children n) (a'.children n')
  node? : ∀ id, Option.Rel R (a.node? id) (a'.node? id)
  root? : Option.Rel R a.root? a'.root?

theorem isLocated_of_site {f : Span → Span} {n n' : Node}
    (h : n'.site = n.site.map (.relocate f)) : n'.isLocated = n.isLocated := by
  rw [Node.isLocated, h, Node.isLocated]
  exact Option.isSome_map

theorem aligned_of_nodes {a a' : Arena} {r r' : Recording} {f : Span → Span}
    {R : Node → Node → Prop} (hbase : a'.base = a.base)
    (hnodes : List.Forall₂ R a.nodes.toList a'.nodes.toList)
    (hid : ∀ {n n'}, R n n' → n'.id = n.id)
    (hsite : ∀ {n n'}, R n n' → n'.site = n.site.map (.relocate f))
    (hrefs : ∀ {n n'}, R n n' → n'.items.filterMap Ref.node? = n.items.filterMap Ref.node?)
    (hagrees : ∀ {n n'}, R n n' → ∀ site ∈ n.site, ∀ span ∈ site.spans, r.AgreesAt r' f span)
    (halike : ∀ {n n'}, R n n' → Alike a a' R n n') : Aligned a a' r r' f R := by
  have hsize : a'.size = a.size := by
    rw [size, size, ← Array.length_toList, ← Array.length_toList, hnodes.length_eq]
  have hnode := rel_node? hbase hnodes
  have hchildren : ∀ {n n'}, R n n' → List.Forall₂ R (a.children n) (a'.children n') :=
    fun hn => rel_children_of_refs hnode (hrefs hn)
  refine ⟨⟨fun _ => sameDepth_of_size hsize r' _, hsite, hagrees, halike, fun hn => ?_⟩, hsize, hid,
    hchildren, hnode, rel_root? hnodes⟩
  exact isEmpty_locatedChildren (fun hm => isLocated_of_site (hsite hm)) (hchildren hn)

namespace Aligned

variable {a a' : Arena} {r r' : Recording} {f : Span → Span} {R : Node → Node → Prop}
  (h : Aligned a a' r r' f R)

include h

theorem childIds {n n' : Node} (hn : R n n') : a'.childIds n' = a.childIds n :=
  map_eq_of_rel (h.children hn) fun hm => h.sameId hm

-- Both walks keep the same stack, since it holds ids only.
theorem walkStack (order : WalkOrder) (fuel : Nat) (stack : List (Nat × Bool)) :
    List.Forall₂ R (a.walkStack order fuel stack) (a'.walkStack order fuel stack) := by
  induction fuel generalizing stack with
  | zero => exact .nil
  | succ fuel ih =>
    cases stack with
    | nil => exact .nil
    | cons top stack =>
      obtain ⟨id, opened⟩ := top
      have hnode := h.node? id
      simp only [Arena.walkStack]
      generalize a.node? id = o, a'.node? id = o' at hnode ⊢
      cases hnode with
      | none => exact .nil
      | some hn =>
        simp only [h.childIds hn]
        cases order with
        | pre => exact .cons hn (ih _)
        | post =>
          cases opened with
          | false => exact ih _
          | true => exact .cons hn (ih _)

theorem walkAll (order : WalkOrder) :
    List.Forall₂ R (a.walkAll order) (a'.walkAll order) := by
  have hroot := h.root?
  unfold Arena.walkAll
  generalize a.root? = o, a'.root? = o' at hroot ⊢
  cases hroot with
  | none => exact .nil
  | some hn =>
    simp only [walk, h.size, h.sameId hn]
    exact h.walkStack order _ _

variable {s s' : Settings} (hs : s'.includeSkip = s.includeSkip)

include hs

theorem entry {n n' : Node} (hn : R n n') (l : Ledger) :
    l.entry s' a' r' n' =
      ((l.entry s a r n).1.map (Option.map (.relocate f)), (l.entry s a r n).2) := by
  rw [Ledger.entry_eq, Ledger.entry_eq, h.branchKind? hn, h.span? hn]
  cases n.construct.branchKind? with
  | none => rfl
  | some kind =>
    cases n.span? with
    | none => rfl
    | some span =>
      simp only [Option.map_some, h.paths hs hn span]
      cases a.paths s r n span with
      | error e => rfl
      | ok paths =>
        simp only [Except.map, Path.number_relocate, h.sameId hn, List.length_map, Option.map_some,
          Branch.Entry.relocate]

theorem entriesOf {ns ns' : List Node} (hns : List.Forall₂ R ns ns') (l : Ledger) :
    Ledger.entriesOf s' a' r' ns' l =
      ((Ledger.entriesOf s a r ns l).1.map (List.map (.relocate f)),
        (Ledger.entriesOf s a r ns l).2) := by
  induction hns generalizing l with
  | nil => rfl
  | @cons n n' ns ns' hn _ ih =>
    simp only [Ledger.entriesOf, h.entry hs hn]
    rcases l.entry s a r n with ⟨found, l⟩
    cases found with
    | error e => rfl
    | ok found =>
      simp only [Except.map, ih]
      rcases Ledger.entriesOf s a r ns l with ⟨rest, l⟩
      cases rest with
      | error e => rfl
      | ok rest => cases found <;> rfl

theorem entries (l : Ledger) :
    l.entries s' a' r' =
      ((l.entries s a r).1.map (List.map (.relocate f)), (l.entries s a r).2) := by
  refine h.entriesOf hs (rel_filter_list (fun hn => ?_) (h.walkAll .post)) l
  rw [Node.isBranch, Node.isBranch, Construct.isBranch, Construct.isBranch, h.branchKind? hn]

end Aligned

end Arena

end SyntaxCoverage
