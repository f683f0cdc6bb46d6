/-!
Extents: stretches `start..stop` of a source text, counted in characters, with the stop excluded.
A literal extent may be reversed; what is decoded from outside never is.
-/

namespace SyntaxCoverage

@[ext]
structure Extent where
  start : Nat
  stop : Nat
deriving DecidableEq, Inhabited

namespace Extent

def Ordered (e : Extent) : Prop := e.start ≤ e.stop

instance (e : Extent) : Decidable e.Ordered := inferInstanceAs (Decidable (_ ≤ _))

def ofBounds? (start stop : Nat) : Option Extent :=
  if stop < start then none else some ⟨start, stop⟩

theorem ordered_of_ofBounds? {start stop : Nat} {e : Extent} (h : ofBounds? start stop = some e) :
    e.Ordered := by
  rw [ofBounds?] at h
  split at h
  · simp at h
  · next hlt =>
    obtain rfl := Option.some.inj h
    exact Nat.not_lt.1 hlt

def spanning (a b : Nat) : Extent := ⟨min a b, max a b⟩

def length (e : Extent) : Nat := e.stop - e.start

/-- True of an extent of zero width; a reversed extent is not empty. -/
def isEmpty (e : Extent) : Bool := e.start == e.stop

def contains (e : Extent) (offset : Nat) : Bool :=
  decide (e.start ≤ offset) && decide (offset < e.stop)

theorem contains_iff {e : Extent} {offset : Nat} :
    e.contains offset = true ↔ e.start ≤ offset ∧ offset < e.stop := by
  simp [contains]

def toText (e : Extent) : String := toString e.start ++ ".." ++ toString e.stop

instance : Ord Extent := ⟨compareLex (compareOn start) (compareOn stop)⟩

instance : Std.TransOrd Extent :=
  inferInstanceAs (Std.TransCmp (compareLex (compareOn start) (compareOn stop)))

theorem compare_def (a b : Extent) :
    compare a b = (compare a.start b.start).then (compare a.stop b.stop) := rfl

instance : Std.LawfulEqOrd Extent where
  compare_self := by simp
  eq_of_compare {a b} h := by
    rw [compare_def, Ordering.then_eq_eq] at h
    obtain ⟨a1, a2⟩ := a
    obtain ⟨b1, b2⟩ := b
    simp only [Nat.compare_eq_eq] at h
    simp [h.1, h.2]

theorem compare_eq_lt_iff {a b : Extent} :
    compare a b = .lt ↔ a.start < b.start ∨ a.start = b.start ∧ a.stop < b.stop := by
  rw [compare_def, Ordering.then_eq_lt, Nat.compare_eq_lt, Nat.compare_eq_eq, Nat.compare_eq_lt]

theorem isLE_compare_iff {a b : Extent} : (compare a b).isLE = true ↔
    a.start < b.start ∨ a.start = b.start ∧ a.stop ≤ b.stop := by
  rw [Ordering.isLE_iff_eq_lt_or_eq_eq, compare_eq_lt_iff, compare_def, Ordering.then_eq_eq,
    Nat.compare_eq_eq, Nat.compare_eq_eq]
  omega

end Extent

end SyntaxCoverage
