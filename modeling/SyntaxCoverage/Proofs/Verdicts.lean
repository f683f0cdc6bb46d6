import SyntaxCoverage.Proofs.Numbering

/-!
The verdict of the closing check. It passes when all ids of all entries differ, and otherwise it
names what is wrong with the first entry that brings a repetition: the earlier entry with the same
key, or the first id that has been given out before. Main statement: `verifyUnique_eq_iff_verdict`.
-/

namespace SyntaxCoverage.Branch

structure Entry.SharesKey (a b : Entry) : Prop where
  kind : a.key.kind = b.key.kind
  extent : a.key.span.extent = b.key.span.extent
  id : a.key.id = b.key.id

structure FirstRepeat (seen ids before : List Nat) (id : Nat) : Prop where
  split : ∃ after, ids = before ++ id :: after
  repeated : id ∈ seen ∨ id ∈ before
  nodup : before.Nodup
  fresh : ∀ j ∈ before, j ∉ seen

/-- The first entry that brings a repetition of ids, and the entries before it. -/
structure FirstClash (es before : List Entry) (e : Entry) : Prop where
  split : ∃ after, es = before ++ e :: after
  nodup : (before.flatMap Entry.ids).Nodup
  clash : ¬((before ++ [e]).flatMap Entry.ids).Nodup

/-- What is to be said about a list of entries: that all ids differ, or, of the first entry that
brings a repetition, which of the earlier ones has its key, and if none has, which of its ids has
been given out before. -/
inductive Verdict (es : List Entry) : Except Failure Unit → Prop
  | passed (h : (es.flatMap Entry.ids).Nodup) : Verdict es (.ok ())
  | sharedKey {before : List Entry} {a e : Entry} {first : Nat} (h : FirstClash es before e)
    (hfirst : before[first]? = some a) (hkey : a.SharesKey e)
    (honly : ∀ i b, before[i]? = some b → b.SharesKey e → i = first) :
    Verdict es (.error (.sharedKey e.key.kind e.key.span.extent e.key.id first before.length))
  | repeatedIndex {before : List Entry} {e : Entry} {ids : List Nat} {id : Nat}
    (h : FirstClash es before e) (hkey : ∀ a ∈ before, ¬a.SharesKey e)
    (hid : FirstRepeat (before.flatMap Entry.ids) e.ids ids id) :
    Verdict es (.error (.repeatedIndex id))

theorem Entry.sameKey_iff {a e : Entry} : e.sameKey a = true ↔ a.SharesKey e := by
  simp only [sameKey, Bool.and_eq_true, beq_iff_eq]
  constructor
  · rintro ⟨⟨hkind, hextent⟩, hid⟩
    exact ⟨hkind.symm, hextent.symm, hid.symm⟩
  · rintro ⟨hkind, hextent, hid⟩
    exact ⟨⟨hkind.symm, hextent.symm⟩, hid.symm⟩

theorem firstRepeat_of_firstRepeat? {seen ids : List Nat} {id : Nat}
    (h : firstRepeat? seen ids = some id) : ∃ before, FirstRepeat seen ids before id := by
  induction ids generalizing seen with
  | nil => simp [firstRepeat?] at h
  | cons j ids ih =>
    rw [firstRepeat?] at h
    split at h
    · next hj =>
      obtain rfl := Option.some.inj h
      exact ⟨[], ⟨ids, rfl⟩, .inl hj, .nil, by simp⟩
    · next hj =>
      -- from here on the id `j` counts among those seen
      obtain ⟨before, ⟨after, rfl⟩, hrepeated, hnodup, hfresh⟩ := ih h
      refine ⟨j :: before, ⟨after, rfl⟩, ?_, ?_, ?_⟩
      · rw [List.mem_cons] at hrepeated ⊢
        tauto
      · exact List.nodup_cons.2 ⟨fun hmem => hfresh j hmem (List.mem_cons_self ..), hnodup⟩
      · exact List.forall_mem_cons.2
          ⟨hj, fun i hi hseen => hfresh i hi (List.mem_cons_of_mem _ hseen)⟩

theorem eq_of_sharesKey {es : List Entry} (h : (es.flatMap Entry.ids).Nodup) {a b e : Entry}
    {i j : Nat} (hi : es[i]? = some a) (hj : es[j]? = some b) (ha : a.SharesKey e)
    (hb : b.SharesKey e) : i = j := by
  have hkeys : (es.map (·.key.id)).Nodup :=
    (List.nodup_append.1 ((ids_perm es).nodup_iff.1 h)).1
  have hlt : i < (es.map (·.key.id)).length := by
    rw [List.length_map]
    exact (List.getElem?_eq_some_iff.1 hi).1
  refine (List.getElem?_inj hlt hkeys).1 ?_
  rw [List.getElem?_map, List.getElem?_map, hi, hj, Option.map_some, Option.map_some, ha.id, hb.id]

theorem verdict_verifyAfter {before : List Entry} (h : (before.flatMap Entry.ids).Nodup)
    (es : List Entry) : Verdict (before ++ es) (verifyAfter before es) := by
  induction es generalizing before with
  | nil =>
    rw [List.append_nil]
    exact .passed h
  | cons e es ih =>
    rw [verifyAfter]
    split
    · next first hfound =>
      obtain ⟨hlt, hsame, -⟩ := List.findIdx?_eq_some_iff_getElem.1 hfound
      have hkey := Entry.sameKey_iff.1 hsame
      have hfirst := List.getElem?_eq_getElem hlt
      refine .sharedKey ⟨⟨es, rfl⟩, h, ?_⟩ hfirst hkey fun i b hi hb => ?_
      · rw [List.flatMap_append, List.nodup_append]
        rintro ⟨-, -, hdisjoint⟩
        refine hdisjoint e.key.id (mem_ids_of_findIdx? hfound) e.key.id ?_ rfl
        simp [Entry.ids]
      · exact eq_of_sharesKey h hi hfirst hb hkey
    · next hnone =>
      have hkey : ∀ a ∈ before, ¬a.SharesKey e := by
        intro a ha hshares
        simpa [Entry.sameKey_iff.2 hshares] using List.findIdx?_eq_none_iff.1 hnone a ha
      split
      · next id hid =>
        obtain ⟨ids, hrepeat⟩ := firstRepeat_of_firstRepeat? hid
        refine .repeatedIndex ⟨⟨es, rfl⟩, h, fun hnodup => ?_⟩ hkey hrepeat
        rw [List.flatMap_append, List.flatMap_singleton, List.nodup_append'] at hnodup
        have hunseen : firstRepeat? (before.flatMap Entry.ids) e.ids = none :=
          firstRepeat?_eq_none_iff.2 ⟨hnodup.2.1, fun j hj hseen => hnodup.2.2 hseen hj⟩
        simp [hid] at hunseen
      · next hunseen =>
        obtain ⟨hnodup, hfresh⟩ := firstRepeat?_eq_none_iff.1 hunseen
        have hnext : ((before ++ [e]).flatMap Entry.ids).Nodup := by
          rw [List.flatMap_append, List.flatMap_singleton, List.nodup_append']
          exact ⟨h, hnodup, fun j hseen hj => hfresh j hj hseen⟩
        simpa using ih hnext

section Unique

theorem eq_of_splits {α : Type} {P : List α → Prop} (hP : ∀ xs ys, P (xs ++ ys) → P xs)
    {xs before before' after after' : List α} {x x' : α} (h : xs = before ++ x :: after)
    (h' : xs = before' ++ x' :: after') (hbefore : P before) (hbefore' : P before')
    (hx : ¬P (before ++ [x])) (hx' : ¬P (before' ++ [x'])) : before = before' ∧ x = x' := by
  have hle : ∀ {ys ys' zs zs' : List α} {y y' : α}, xs = ys ++ y :: zs → xs = ys' ++ y' :: zs' →
      P ys → ¬P (ys' ++ [y']) → ys.length ≤ ys'.length := by
    intro ys ys' zs zs' y y' hsplit hsplit' hys hy'
    by_contra hlt
    have hprefix : ys <+: xs := ⟨y :: zs, hsplit.symm⟩
    have hprefix' : ys' ++ [y'] <+: xs := ⟨zs', by rw [hsplit', ← List.append_cons]⟩
    have hlength : (ys' ++ [y']).length ≤ ys.length := by
      rw [List.length_append, List.length_singleton]
      omega
    obtain ⟨rest, rfl⟩ := List.prefix_of_prefix_length_le hprefix' hprefix hlength
    exact hy' (hP _ rest hys)
  have hlength := Nat.le_antisymm (hle h h' hbefore hx') (hle h' h hbefore' hx)
  obtain ⟨hsame, hrest⟩ := List.append_inj (h.symm.trans h') hlength
  exact ⟨hsame, (List.cons.inj hrest).1⟩

theorem FirstRepeat.unique {seen ids before before' : List Nat} {id id' : Nat}
    (h : FirstRepeat seen ids before id) (h' : FirstRepeat seen ids before' id') : id = id' := by
  obtain ⟨⟨after, hsplit⟩, hrepeated, hnodup, hfresh⟩ := h
  obtain ⟨⟨after', hsplit'⟩, hrepeated', hnodup', hfresh'⟩ := h'
  have hclash : ∀ {l : List Nat} {j : Nat}, j ∈ seen ∨ j ∈ l →
      ¬((l ++ [j]).Nodup ∧ ∀ i ∈ l ++ [j], i ∉ seen) := by
    rintro l j (hj | hj) ⟨hl, hseen⟩
    · exact hseen j (by simp) hj
    · exact (List.nodup_append'.1 hl).2.2 hj (List.mem_singleton_self j)
  refine (eq_of_splits (P := fun l => l.Nodup ∧ ∀ j ∈ l, j ∉ seen) ?_ hsplit hsplit'
    ⟨hnodup, hfresh⟩ ⟨hnodup', hfresh'⟩ (hclash hrepeated) (hclash hrepeated')).2
  rintro xs ys ⟨hxs, hseen⟩
  exact ⟨(List.nodup_append.1 hxs).1, fun j hj => hseen j (List.mem_append_left _ hj)⟩

variable {es before before' : List Entry} {e e' : Entry} {v v' : Except Failure Unit}

theorem nodup_ids_of_append (xs ys : List Entry) (h : ((xs ++ ys).flatMap Entry.ids).Nodup) :
    (xs.flatMap Entry.ids).Nodup := by
  rw [List.flatMap_append] at h
  exact (List.nodup_append.1 h).1

theorem FirstClash.unique (h : FirstClash es before e) (h' : FirstClash es before' e') :
    before = before' ∧ e = e' := by
  obtain ⟨after, hsplit⟩ := h.split
  obtain ⟨after', hsplit'⟩ := h'.split
  exact eq_of_splits (P := fun xs => (xs.flatMap Entry.ids).Nodup) nodup_ids_of_append hsplit hsplit'
    h.nodup h'.nodup h.clash h'.clash

theorem FirstClash.not_nodup (h : FirstClash es before e) : ¬(es.flatMap Entry.ids).Nodup := by
  obtain ⟨after, rfl⟩ := h.split
  rw [List.append_cons]
  exact fun hnodup => h.clash (nodup_ids_of_append _ _ hnodup)

theorem Verdict.unique (h : Verdict es v) (h' : Verdict es v') : v = v' := by
  cases h with
  | passed hnodup =>
    cases h' with
    | passed _ => rfl
    | sharedKey hclash _ _ _ => exact absurd hnodup hclash.not_nodup
    | repeatedIndex hclash _ _ => exact absurd hnodup hclash.not_nodup
  | sharedKey hclash hfirst hkey honly =>
    cases h' with
    | passed hnodup => exact absurd hnodup hclash.not_nodup
    | sharedKey hclash' hfirst' hkey' _ =>
      obtain ⟨rfl, rfl⟩ := hclash.unique hclash'
      rw [honly _ _ hfirst' hkey']
    | repeatedIndex hclash' hnone _ =>
      obtain ⟨rfl, rfl⟩ := hclash.unique hclash'
      exact absurd hkey (hnone _ (List.mem_of_getElem? hfirst))
  | repeatedIndex hclash hnone hid =>
    cases h' with
    | passed hnodup => exact absurd hnodup hclash.not_nodup
    | sharedKey hclash' hfirst hkey _ =>
      obtain ⟨rfl, rfl⟩ := hclash.unique hclash'
      exact absurd hkey (hnone _ (List.mem_of_getElem? hfirst))
    | repeatedIndex hclash' _ hid' =>
      obtain ⟨rfl, rfl⟩ := hclash.unique hclash'
      rw [hid.unique hid']

end Unique

/-- The check passes exactly when all ids differ, and what it says of a list is what there is to be
said about it, down to the one earlier entry with the same key and to the first repeated id. -/
theorem verifyUnique_eq_iff_verdict (es : List Entry) :
    (verifyUnique es = .ok () ↔ (es.flatMap Entry.ids).Nodup) ∧
      ∀ v, verifyUnique es = v ↔ Verdict es v := by
  have hnil : (([] : List Entry).flatMap Entry.ids).Nodup := List.nodup_nil
  have hverdict : Verdict es (verifyUnique es) := verdict_verifyAfter hnil es
  exact ⟨verifyUnique_eq_ok_iff, fun v => ⟨fun h => h ▸ hverdict, fun h => hverdict.unique h⟩⟩

end SyntaxCoverage.Branch
