import SyntaxCoverage.Proofs.Sites
import SyntaxCoverage.Proofs.Transport

/-!
Moving a text. Where the spans of a tree are moved, the order of their lines is kept, and the
recording answers for the moved spans as before, the report of the tree moves along.
-/

namespace SyntaxCoverage

def Node.relocate (f : Span → Span) (n : Node) : Node := { n with site := n.site.map (.relocate f) }

namespace Tree

mutual

def relocate (f : Span → Span) : Tree → Tree
  | .node kind items site => .node kind (relocateItems f items) (site.map (.relocate f))

def relocateItems (f : Span → Span) : List Item → List Item
  | [] => []
  | item :: items => relocateItem f item :: relocateItems f items

def relocateItem (f : Span → Span) : Item → Item
  | .tree t => .tree (t.relocate f)
  | .leaf l => .leaf l

end

def firstLines (t : Tree) : List Nat := t.sites.map (·.whole.firstLine)

theorem leaf?_relocateItem (f : Span → Span) (item : Item) :
    (relocateItem f item).leaf? = item.leaf? := by
  cases item <;> rfl

theorem leaves_relocateItems (f : Span → Span) (items : List Item) :
    (relocateItems f items).map Item.leaf? = items.map Item.leaf? := by
  induction items with
  | nil => rfl
  | cons item items ih =>
    rw [relocateItems, List.map_cons, List.map_cons, ih, leaf?_relocateItem]

theorem ofTree_relocate (f : Span → Span) (parent : Option Construct) (t : Tree) (slot : Nat) :
    Construct.ofTree parent (t.relocate f) slot = Construct.ofTree parent t slot := by
  have hkind : (t.relocate f).kind = t.kind := by
    cases t
    rfl
  have hleaves : (t.relocate f).items.map Item.leaf? = t.items.map Item.leaf? := by
    cases t with
    | node kind items site => exact leaves_relocateItems f items
  exact Construct.ofTree_congr rfl hkind hleaves

mutual

theorem size_relocate (f : Span → Span) : (t : Tree) → (t.relocate f).size = t.size
  | .node kind items site => by
    rw [relocate, size, size, sizes_relocateItems f items]

theorem sizes_relocateItems (f : Span → Span) :
    (items : List Item) → sizes (relocateItems f items) = sizes items
  | [] => rfl
  | item :: items => by
    rw [relocateItems, sizes, sizes, itemSize_relocateItem f item, sizes_relocateItems f items]

theorem itemSize_relocateItem (f : Span → Span) :
    (item : Item) → itemSize (relocateItem f item) = itemSize item
  | .tree t => size_relocate f t
  | .leaf _ => rfl

end

theorem refs_relocateItems (f : Span → Span) (id : Nat) (items : List Item) :
    refs id (relocateItems f items) = refs id items := by
  induction items generalizing id with
  | nil => rfl
  | cons item items ih =>
    rw [relocateItems, refs, refs, ih, itemSize_relocateItem]
    cases item <;> rfl

mutual

theorem layout_relocate (f : Span → Span) (parent : Option Parent) (slot id : Nat) :
    (t : Tree) → (t.relocate f).layout parent slot id = (t.layout parent slot id).map (.relocate f)
  | .node kind items site => by
    have hconstruct := ofTree_relocate f (parent.map (·.construct)) (.node kind items site) slot
    rw [relocate] at hconstruct ⊢
    simp only [layout, hconstruct, refs_relocateItems, layoutItems_relocate f _ _ _ items]
    rfl

theorem layoutItems_relocate (f : Span → Span) (parent : Parent) (slot id : Nat) :
    (items : List Item) → layoutItems parent slot id (relocateItems f items) =
      (layoutItems parent slot id items).map (.relocate f)
  | [] => rfl
  | item :: items => by
    rw [relocateItems, layoutItems, layoutItems, List.map_append, itemSize_relocateItem,
      layoutItem_relocate f parent slot id item, layoutItems_relocate f parent _ _ items]

theorem layoutItem_relocate (f : Span → Span) (parent : Parent) (slot id : Nat) :
    (item : Item) → layoutItem parent slot id (relocateItem f item) =
      (layoutItem parent slot id item).map (.relocate f)
  | .tree t => layout_relocate f (some parent) slot id t
  | .leaf _ => rfl

end

end Tree

section Relocated

variable {t : Tree} {f : Span → Span} {r r' : Recording}

def Tree.Moved (f : Span → Span) (t : Tree) (n n' : Node) : Prop :=
  n ∈ t.layout none 0 0 ∧ n' = n.relocate f

theorem Tree.Moved.site_mem {n n' : Node} (h : t.Moved f n n') :
    ∀ site ∈ n.site, site ∈ t.sites :=
  fun _ hsite => Tree.mem_sites_of_mem_layout h.1 hsite

theorem Arena.moved_nodes (f : Span → Span) (t : Tree) :
    List.Forall₂ (t.Moved f) (ofTree 0 t).nodes.toList (ofTree 0 (t.relocate f)).nodes.toList := by
  show List.Forall₂ _ (t.layout none 0 0) ((t.relocate f).layout none 0 0)
  rw [t.layout_relocate, List.forall₂_map_right_iff, List.forall₂_same]
  exact fun n hn => ⟨hn, rfl⟩

theorem Arena.aligned_relocate
    (hr : ∀ site ∈ t.sites, ∀ span ∈ site.spans, r.AgreesAt r' f span) :
    Aligned (ofTree 0 t) (ofTree 0 (t.relocate f)) r r' f (t.Moved f) := by
  have hnodes := moved_nodes f t
  have hnode : ∀ id,
      Option.Rel (t.Moved f) ((ofTree 0 t).node? id) ((ofTree 0 (t.relocate f)).node? id) :=
    rel_node? rfl hnodes
  have hsite : ∀ {n n'}, t.Moved f n n' → n'.site = n.site.map (.relocate f) := by
    rintro n _ ⟨-, rfl⟩
    rfl
  have hwhen : ∀ {n n'}, t.Moved f n n' → isWhen n' = isWhen n := by
    rintro n _ ⟨-, rfl⟩
    rfl
  refine aligned_of_nodes rfl hnodes ?_ hsite ?_ ?_ ?_
  · rintro n _ ⟨-, rfl⟩
    rfl
  · rintro n _ ⟨-, rfl⟩
    rfl
  · exact fun hn site hmem => hr site (hn.site_mem site hmem)
  · rintro n _ ⟨-, rfl⟩
    exact alike_of_slots (.refl _) (fun hm => isLocated_of_site (hsite hm)) hwhen
      (rel_slots hnode rfl)

namespace Settings

variable {s s' : Settings} {g : Nat → Nat}

theorem cutAlike_of_firstLine (hs : s' = { s with firstLine := s'.firstLine })
    (hfirst : 1 ≤ s.firstLine) (hfirst' : 1 ≤ s'.firstLine) {S : Set Nat}
    (hcut : ∀ line ∈ S, line < s.firstLine ↔ g line < s'.firstLine) : s.CutAlike g S s' := by
  refine ⟨?_, ?_, ?_, hcut⟩
  · rw [hs]
  · rw [hs]
  · rw [validate, validate, if_neg (by omega), if_neg (by omega)]

/-- Moving the spans of a tree moves its report. Nothing depends on where a span stands except
through the order of the lines and through what the recording answers for the span. -/
theorem analyse_relocate (hg : StrictMonoOn g {line | line ∈ t.firstLines})
    (hf : ∀ site ∈ t.sites, (f site.whole).firstLine = g site.whole.firstLine)
    (hr : ∀ site ∈ t.sites, ∀ span ∈ site.spans, r.AgreesAt r' f span)
    (hs : s' = { s with firstLine := s'.firstLine })
    (hfirst : 1 ≤ s.firstLine) (hfirst' : 1 ≤ s'.firstLine)
    (hcut : ∀ line ∈ t.firstLines, line < s.firstLine ↔ g line < s'.firstLine) (unit : String) :
    SameOutcome (Report.Relocated f g) (s.analyse unit t r)
      (s'.analyse unit (t.relocate f) r') := by
  refine analyse_aligned (Arena.aligned_relocate hr) hg
    (cutAlike_of_firstLine hs hfirst hfirst' hcut) ?_ unit
  intro n n' hn span hspan
  obtain ⟨site, hsite, rfl⟩ := Option.map_eq_some_iff.1 hspan
  have hmem := hn.site_mem site hsite
  have hline : site.whole.firstLine ∈ t.firstLines := List.mem_map.2 ⟨site, hmem, rfl⟩
  exact ⟨hline, hf site hmem⟩

def twoLineLoop : Tree :=
  let span (start stop line : Nat) : Span := ⟨⟨start, stop⟩, ⟨line, start⟩, ⟨line, stop⟩⟩
  .node "while" [.tree (.node "send" [] (some ⟨span 6 9 1, some (span 7 9 1)⟩)),
    .tree (.node "int" [] (some ⟨span 10 11 2, none⟩))] (some ⟨span 0 12 1, none⟩)

def belowBlanks (s : Span) : Span :=
  ⟨⟨s.extent.start + 3, s.extent.stop + 3⟩, ⟨s.first.line + 3, s.first.column⟩,
    ⟨s.last.line + 3, s.last.column⟩⟩

theorem analyse_relocate_blanks :
    let r : Recording := ⟨fun e => .ok (some (e.stop % 3)), fun _ => .ok none⟩
    let s : Settings := { Settings.default with firstLine := 2 }
    let s' : Settings := { Settings.default with firstLine := 5 }
    ((∀ line ∈ twoLineLoop.firstLines, line < s.firstLine ↔ line + 3 < s'.firstLine) ∧
      ∀ site ∈ twoLineLoop.sites, ∀ span ∈ site.spans, r.AgreesAt r belowBlanks span) ∧
    (s.analyse "loop" twoLineLoop r).map (·.branches.length) = .ok 1 ∧
      SameOutcome (Report.Relocated belowBlanks (· + 3)) (s.analyse "loop" twoLineLoop r)
        (s'.analyse "loop" (twoLineLoop.relocate belowBlanks) r) := by
  intro r s s'
  have hcut : ∀ line ∈ twoLineLoop.firstLines, line < s.firstLine ↔ line + 3 < s'.firstLine := by
    decide
  have hr : ∀ site ∈ twoLineLoop.sites, ∀ span ∈ site.spans, r.AgreesAt r belowBlanks span := by
    intro site _ span _
    have hstop : (span.extent.stop + 3) % 3 = span.extent.stop % 3 := Nat.add_mod_right ..
    exact ⟨congrArg (fun n => Except.ok (some n)) hstop, rfl⟩
  refine ⟨⟨hcut, hr⟩, rfl, ?_⟩
  exact analyse_relocate (fun a _ b _ hab => Nat.add_lt_add_right hab 3) (fun _ _ => rfl) hr rfl
    (by decide) (by decide) hcut "loop"

end Settings

end Relocated

end SyntaxCoverage
