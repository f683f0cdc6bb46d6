import Mathlib.Data.List.Flatten
import SyntaxCoverage.Analysis.Unit
import SyntaxCoverage.Proofs.Walks

/-!
The ids of branch entries. The outcomes of successive entries take consecutive ids from the ledger,
the keys keep the ids of their nodes, and a check for repeated ids passes exactly when all ids of
all entries differ.
-/

namespace SyntaxCoverage

namespace Branch

def Entry.outcomeIds (e : Entry) : List Nat := e.outcomes.map (·.id)

theorem totalOutcomes_append (as bs : List Entry) :
    totalOutcomes (as ++ bs) = totalOutcomes as + totalOutcomes bs := by
  induction as with
  | nil => exact (Nat.zero_add _).symm
  | cons e as ih =>
    show e.outcomes.length + totalOutcomes (as ++ bs) =
      e.outcomes.length + totalOutcomes as + totalOutcomes bs
    rw [ih, Nat.add_assoc]

theorem ids_perm (es : List Entry) :
    (es.flatMap Entry.ids).Perm (es.map (·.key.id) ++ es.flatMap Entry.outcomeIds) := by
  induction es with
  | nil => exact .refl _
  | cons e es ih =>
    rw [List.flatMap_cons, List.map_cons, List.flatMap_cons, List.cons_append]
    show (e.key.id :: (e.outcomeIds ++ es.flatMap Entry.ids)).Perm _
    refine List.Perm.cons _ ((ih.append_left _).trans ?_)
    exact List.perm_append_comm_assoc ..

theorem firstRepeat?_eq_none_iff {seen ids : List Nat} :
    firstRepeat? seen ids = none ↔ ids.Nodup ∧ ∀ id ∈ ids, id ∉ seen := by
  induction ids generalizing seen with
  | nil => simp [firstRepeat?]
  | cons id ids ih =>
    by_cases h : id ∈ seen
    · simp [firstRepeat?, h]
    · rw [firstRepeat?, if_neg h, ih, List.nodup_cons]
      simp only [List.mem_cons, not_or, forall_eq_or_imp]
      constructor
      · rintro ⟨hnodup, hfresh⟩
        exact ⟨⟨fun hid => (hfresh id hid).1 rfl, hnodup⟩, h, fun j hj => (hfresh j hj).2⟩
      · rintro ⟨⟨hid, hnodup⟩, -, hfresh⟩
        exact ⟨hnodup, fun j hj => ⟨fun he => hid (he ▸ hj), hfresh j hj⟩⟩

theorem mem_ids_of_findIdx? {earlier : List Entry} {e : Entry} {i : Nat}
    (h : earlier.findIdx? e.sameKey = some i) : e.key.id ∈ earlier.flatMap Entry.ids := by
  obtain ⟨hi, hsame, -⟩ := List.findIdx?_eq_some_iff_getElem.1 h
  have hid : e.key.id = earlier[i].key.id := by
    simp only [Entry.sameKey, Bool.and_eq_true, beq_iff_eq] at hsame
    exact hsame.2
  refine List.mem_flatMap.2 ⟨earlier[i], List.getElem_mem hi, ?_⟩
  rw [hid]
  exact List.mem_cons_self ..

theorem verifyAfter_eq_ok_iff {earlier es : List Entry} :
    verifyAfter earlier es = .ok () ↔ (es.flatMap Entry.ids).Nodup ∧
      ∀ id ∈ es.flatMap Entry.ids, id ∉ earlier.flatMap Entry.ids := by
  induction es generalizing earlier with
  | nil => simp [verifyAfter]
  | cons e es ih =>
    have hkey : e.key.id ∈ (e :: es).flatMap Entry.ids := by simp [Entry.ids]
    rw [verifyAfter]
    split
    · next i hi =>
      have hmem := mem_ids_of_findIdx? hi
      simp only [reduceCtorEq, false_iff, not_and]
      exact fun _ hfresh => hfresh _ hkey hmem
    · split
      · next id hid =>
        have hrepeat := mt firstRepeat?_eq_none_iff.2 (by rw [hid]; simp)
        simp only [reduceCtorEq, false_iff]
        rw [List.flatMap_cons]
        rintro ⟨hnodup, hfresh⟩
        exact hrepeat ⟨(List.nodup_append.1 hnodup).1, fun j hj => hfresh j (by simp [hj])⟩
      · next hnone =>
        obtain ⟨hnodup, hfresh⟩ := firstRepeat?_eq_none_iff.1 hnone
        rw [ih, List.flatMap_cons, List.flatMap_append, List.nodup_append']
        simp only [List.flatMap_cons, List.flatMap_nil, List.append_nil, List.mem_append, not_or]
        constructor
        · rintro ⟨hes, hlater⟩
          refine ⟨⟨hnodup, hes, fun j hj hj' => (hlater j hj').2 hj⟩, ?_⟩
          rintro j (hj | hj)
          · exact hfresh j hj
          · exact (hlater j hj).1
        · rintro ⟨⟨-, hes, hdisjoint⟩, hearlier⟩
          exact ⟨hes, fun j hj => ⟨hearlier j (.inr hj), fun hj' => hdisjoint hj' hj⟩⟩

theorem verifyUnique_eq_ok_iff {es : List Entry} :
    verifyUnique es = .ok () ↔ (es.flatMap Entry.ids).Nodup := by
  rw [verifyUnique, verifyAfter_eq_ok_iff]
  simp

end Branch

def Path.number (id : Nat) : List Path → List Branch.Outcome
  | [] => []
  | p :: ps => ⟨p.label, id, p.span, p.hits⟩ :: number (id + 1) ps

theorem Path.ids_number (id : Nat) (ps : List Path) :
    (Path.number id ps).map (·.id) = List.range' id ps.length := by
  induction ps generalizing id with
  | nil => rfl
  | cons p ps ih => rw [number, List.map_cons, ih, List.length_cons, List.range'_succ]

theorem Path.length_number (id : Nat) (ps : List Path) :
    (Path.number id ps).length = ps.length := by
  induction ps generalizing id with
  | nil => rfl
  | cons p ps ih => rw [number, List.length_cons, ih, List.length_cons]

namespace Ledger

open Branch

variable {s : Settings} {a : Arena} {r : Recording} {l l' : Ledger}

theorem number_eq (l : Ledger) (ps : List Path) :
    l.number ps = (Path.number l.nextId ps, l.advance ps.length) := by
  induction ps generalizing l with
  | nil => rfl
  | cons p ps ih =>
    simp only [number, allocate_eq, ih, advance_advance, Nat.add_comm 1]
    rfl

theorem entry_eq (s : Settings) (a : Arena) (r : Recording) (n : Node) (l : Ledger) :
    l.entry s a r n =
      match n.construct.branchKind?, n.span? with
      | some kind, some span =>
        match a.paths s r n span with
        | .error e => (.error e, l)
        | .ok ps => (.ok (some ⟨⟨kind, n.id, span⟩, Path.number l.nextId ps⟩), l.advance ps.length)
      | _, _ => (.ok none, l) := by
  rw [entry]
  cases n.construct.branchKind? with
  | none => rfl
  | some kind =>
    cases n.span? with
    | none => rfl
    | some span =>
      dsimp only
      cases a.paths s r n span with
      | error e => rfl
      | ok ps => simp only [number_eq]

structure Numbers (l l' : Ledger) (es : List Entry) : Prop where
  ids : es.flatMap Entry.outcomeIds = List.range' l.nextId (totalOutcomes es)
  ledger : l' = l.advance (totalOutcomes es)

theorem Numbers.nil (l : Ledger) : Numbers l l [] := ⟨rfl, rfl⟩

theorem Numbers.append {l₁ l₂ l₃ : Ledger} {as bs : List Entry} (h : Numbers l₁ l₂ as)
    (h' : Numbers l₂ l₃ bs) : Numbers l₁ l₃ (as ++ bs) := by
  obtain ⟨hids, rfl⟩ := h
  obtain ⟨hids', rfl⟩ := h'
  constructor
  · rw [List.flatMap_append, hids, hids', nextId_advance, totalOutcomes_append,
      List.range'_append_1]
  · rw [advance_advance, totalOutcomes_append]

/-- What becomes of a node: it has no entry, or its ways are not known, or they get the next ids. -/
inductive EntryOf (s : Settings) (a : Arena) (r : Recording) (n : Node) (l : Ledger) :
    Except RecordingError (Option Entry) × Ledger → Prop
  | none (h : n.construct.branchKind? = none ∨ n.span? = none) : EntryOf s a r n l (.ok none, l)
  | failed {kind : Kind} {span : Span} {e : RecordingError}
    (hkind : n.construct.branchKind? = some kind) (hspan : n.span? = some span)
    (hpaths : a.paths s r n span = .error e) : EntryOf s a r n l (.error e, l)
  | made {kind : Kind} {span : Span} {ps : List Path}
    (hkind : n.construct.branchKind? = some kind) (hspan : n.span? = some span)
    (hpaths : a.paths s r n span = .ok ps) :
    EntryOf s a r n l (.ok (some ⟨⟨kind, n.id, span⟩, Path.number l.nextId ps⟩),
      l.advance ps.length)

theorem entry_cases (s : Settings) (a : Arena) (r : Recording) (n : Node) (l : Ledger) :
    EntryOf s a r n l (l.entry s a r n) := by
  rw [entry_eq]
  cases hkind : n.construct.branchKind? with
  | none => exact .none (.inl hkind)
  | some kind =>
    cases hspan : n.span? with
    | none => exact .none (.inr hspan)
    | some span =>
      cases hpaths : a.paths s r n span with
      | error e => simpa only [hpaths] using .failed hkind hspan hpaths
      | ok ps => simpa only [hpaths] using .made hkind hspan hpaths

theorem entry_ok {n : Node} {found : Option Entry} (h : l.entry s a r n = (.ok found, l')) :
    Numbers l l' found.toList ∧ ∀ e ∈ found, e.key.id = n.id := by
  have hcases := h ▸ entry_cases s a r n l
  cases hcases with
  | none _ => exact ⟨.nil l, by simp⟩
  | made hkind hspan hpaths =>
    refine ⟨⟨?_, ?_⟩, ?_⟩
    · simp [Entry.outcomeIds, totalOutcomes, Path.ids_number, Path.length_number]
    · simp [totalOutcomes, Path.length_number]
    · intro e he
      obtain rfl := Option.mem_some_iff.1 he
      rfl

theorem entry_error {n : Node} {e : RecordingError} (h : l.entry s a r n = (.error e, l')) :
    l' = l := by
  have hcases := h ▸ entry_cases s a r n l
  cases hcases with
  | failed _ _ _ => rfl

theorem entriesOf_cons_eq_ok_iff {n : Node} {ns : List Node} {es : List Entry} :
    entriesOf s a r (n :: ns) l = (.ok es, l') ↔
      ∃ found l₁ rest, l.entry s a r n = (.ok found, l₁) ∧
        entriesOf s a r ns l₁ = (.ok rest, l') ∧ found.toList ++ rest = es := by
  rw [entriesOf]
  rcases l.entry s a r n with ⟨_ | found, l₁⟩
  · simp
  · rcases hrest : entriesOf s a r ns l₁ with ⟨_ | rest, l₂⟩
    · simp [hrest]
    · simp [hrest, and_comm]

theorem entriesOf_ok {ns : List Node} {es : List Entry}
    (h : entriesOf s a r ns l = (.ok es, l')) :
    Numbers l l' es ∧ (es.map (·.key.id)).Sublist (ns.map Node.id) := by
  induction ns generalizing l es with
  | nil =>
    simp only [entriesOf, Prod.mk.injEq, Except.ok.injEq] at h
    obtain ⟨rfl, rfl⟩ := h
    exact ⟨.nil l, .refl _⟩
  | cons n ns ih =>
    obtain ⟨found, l₁, rest, hfound, hrest, rfl⟩ := entriesOf_cons_eq_ok_iff.1 h
    obtain ⟨hnumbers, hkey⟩ := entry_ok hfound
    obtain ⟨hnumbers', hkeys⟩ := ih hrest
    refine ⟨hnumbers.append hnumbers', ?_⟩
    cases found with
    | none => exact hkeys.cons _
    | some e =>
      rw [Option.toList_some, List.singleton_append, List.map_cons, List.map_cons, hkey e rfl]
      exact hkeys.cons_cons _

theorem nextId_le_entriesOf (s : Settings) (a : Arena) (r : Recording) (ns : List Node)
    (l : Ledger) : l.nextId ≤ (entriesOf s a r ns l).2.nextId := by
  induction ns generalizing l with
  | nil => exact Nat.le_refl _
  | cons n ns ih =>
    rw [entriesOf]
    split
    · next e l₁ he =>
      rw [entry_error he]
    · next found l₁ hfound =>
      have hle : l.nextId ≤ l₁.nextId := by
        rw [(entry_ok hfound).1.ledger]
        exact Nat.le_add_right ..
      split
      · next e l₂ he => simpa [he] using hle.trans (ih l₁)
      · next rest l₂ hrest => simpa [hrest] using hle.trans (ih l₁)

theorem keys_entries {base : Nat} {t : Tree} {es : List Entry}
    (h : l.entries s (.ofTree base t) r = (.ok es, l')) :
    (es.map (·.key.id)).Nodup ∧ es.map (·.key.id) ⊆ (Arena.ofTree base t).ids := by
  have hsub := (entriesOf_ok h).2.trans (List.filter_sublist.map Node.id)
  refine ⟨hsub.nodup (Arena.nodup_ids_walkAll .post base t), fun id hid => ?_⟩
  exact ((Arena.walkAll_perm .post base t).map Node.id).subset (hsub.subset hid)

theorem nextId_enterNodes (s : Settings) (a : Arena) (r : Recording) (ns : List Node)
    (l : Ledger) : (enterNodes s a r ns l).2.nextId = l.nextId := by
  induction ns generalizing l with
  | nil => rfl
  | cons n ns ih =>
    rw [enterNodes]
    split
    · exact ih l
    · split
      · rfl
      · rw [ih]
        unfold enterRuns
        split <;> rfl

theorem nextId_projectLines (s : Settings) (a : Arena) (r : Recording) (l : Ledger) :
    (l.projectLines s a r).2.nextId = l.nextId := by
  have h := nextId_enterNodes s a r (a.walkAll .pre) l
  unfold projectLines enterLines
  split
  · next e l₁ he => simpa [he] using h
  · next l₁ hok => simpa [hok, takeLines] using h

end Ledger

end SyntaxCoverage
