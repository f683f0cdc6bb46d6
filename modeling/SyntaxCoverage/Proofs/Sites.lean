import SyntaxCoverage.Proofs.Failing
import SyntaxCoverage.Proofs.Readback

/-!
The sites of a tree. Wherever a tree stands, its analysis asks a recording about the spans of its
sites and about nothing else.
-/

namespace SyntaxCoverage

namespace Tree

mutual

def sites : Tree → List Site
  | .node _ items site => site.toList ++ sitesOf items

def sitesOf : List Item → List Site
  | [] => []
  | item :: items => itemSites item ++ sitesOf items

def itemSites : Item → List Site
  | .tree t => t.sites
  | .leaf _ => []

end

theorem sitesOf_eq (items : List Item) :
    sitesOf items = (items.filterMap Item.tree?).flatMap sites := by
  induction items with
  | nil => rfl
  | cons item items ih =>
    rw [sitesOf, ih]
    cases item <;> rfl

mutual

theorem sites_layout (parent : Option Parent) (slot id : Nat) :
    (t : Tree) → (t.layout parent slot id).filterMap Node.site = t.sites
  | .node kind items site => by
    rw [layout, List.filterMap_cons, sitesOf_layoutItems _ _ _ items, sites]
    cases site <;> rfl

theorem sitesOf_layoutItems (parent : Parent) (slot id : Nat) :
    (items : List Item) →
      (layoutItems parent slot id items).filterMap Node.site = sitesOf items
  | [] => rfl
  | item :: items => by
    rw [layoutItems, List.filterMap_append, sitesOf, itemSites_layoutItem parent slot id item,
      sitesOf_layoutItems parent _ _ items]

theorem itemSites_layoutItem (parent : Parent) (slot id : Nat) :
    (item : Item) → (layoutItem parent slot id item).filterMap Node.site = itemSites item
  | .tree t => sites_layout (some parent) slot id t
  | .leaf _ => rfl

end

theorem mem_sites_of_mem_layout {t : Tree} {n : Node} {parent : Option Parent} {slot id : Nat}
    (hn : n ∈ t.layout parent slot id) {site : Site} (hsite : site ∈ n.site) :
    site ∈ t.sites := by
  rw [← t.sites_layout parent slot id]
  exact List.mem_filterMap.2 ⟨n, hn, hsite⟩

end Tree

/-- The recording answers for all spans of a tree. -/
structure Recording.AnswersFor (r : Recording) (t : Tree) : Prop where
  hits : ∀ site ∈ t.sites, ∀ span ∈ site.spans, ∃ n, r.hits span.extent = .ok n
  completions : ∀ site ∈ t.sites, ∃ n, r.completions site.extent = .ok n

/-- The recording fails with this error when asked for a span of the tree. -/
def Recording.FailsAt (r : Recording) (t : Tree) (e : RecordingError) : Prop :=
  ∃ site ∈ t.sites, (∃ span ∈ site.spans, r.hits span.extent = .error e) ∨
    r.completions site.extent = .error e

theorem Arena.Stands.reading {a : Arena} {p : Placed} (h : a.Stands p) (r : Recording) :
    a.Reading r (· ∈ p.nodes) (r.FailsAt p.tree) where
  children hn _ hm := h.children_subset hn _ hm
  hits hn site hsite span hspan := .of_eq_error fun _ he =>
    ⟨site, Tree.mem_sites_of_mem_layout hn hsite, .inl ⟨span, hspan, he⟩⟩
  completions hn site hsite := .of_eq_error fun _ he =>
    ⟨site, Tree.mem_sites_of_mem_layout hn hsite, .inr he⟩

namespace Recording.AnswersFor

variable {r : Recording} {t : Tree}

theorem not_failsAt (hr : r.AnswersFor t) (e : RecordingError) : ¬r.FailsAt t e := by
  rintro ⟨site, hsite, ⟨span, hspan, hhits⟩ | hcompletions⟩
  · obtain ⟨n, hn⟩ := hr.hits site hsite span hspan
    simp [hn] at hhits
  · obtain ⟨n, hn⟩ := hr.completions site hsite
    simp [hn] at hcompletions

theorem of_sites_subset {u : Tree} (hr : r.AnswersFor t) (h : u.sites ⊆ t.sites) :
    r.AnswersFor u :=
  ⟨fun site hsite => hr.hits site (h hsite), fun site hsite => hr.completions site (h hsite)⟩

theorem part {kind : String} {items : List Item} {site : Option Site}
    (hr : r.AnswersFor (.node kind items site)) (ht : t ∈ items.filterMap Item.tree?) :
    r.AnswersFor t := by
  refine hr.of_sites_subset fun site' hmem => ?_
  rw [Tree.sites, Tree.sitesOf_eq]
  exact List.mem_append_right _ (List.mem_flatMap.2 ⟨t, ht, hmem⟩)

end Recording.AnswersFor

theorem Arena.Stands.answered {a : Arena} {p : Placed} {r : Recording} (h : a.Stands p)
    (hr : r.AnswersFor p.tree) : a.Reading r (· ∈ p.nodes) fun _ => False :=
  (h.reading r).imp hr.not_failsAt

end SyntaxCoverage
