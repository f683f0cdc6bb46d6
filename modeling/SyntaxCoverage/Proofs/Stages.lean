import SyntaxCoverage.Proofs.Numbering

/-!
The analysis of a unit as its stages. The ids under one fresh ledger never repeat, so the closing
check has nothing to say, and the two projections of a tree do not depend on each other.
-/

namespace SyntaxCoverage

open Branch

theorem bind_eq_ok_iff {ε α β : Type} {x : Except ε α} {k : α → Except ε β} {v : β} :
    x >>= k = .ok v ↔ ∃ u, x = .ok u ∧ k u = .ok v := by
  constructor
  · intro h
    cases x with
    | error e => exact nomatch h
    | ok u => exact ⟨u, rfl, h⟩
  · rintro ⟨u, rfl, h⟩
    exact h

theorem map_eq_ok_iff {ε α β : Type} {x : Except ε α} {f : α → β} {v : β} :
    x.map f = .ok v ↔ ∃ u, x = .ok u ∧ f u = v := by
  cases x <;> simp [Except.map]

theorem mapError_eq_ok_iff {ε ε' α : Type} {f : ε → ε'} {x : Except ε α} {v : α} :
    x.mapError f = .ok v ↔ x = .ok v := by
  cases x <;> simp [Except.mapError]

namespace Ledger

/-- The ledger of a unit once its tree has been laid out. -/
def afterBuild (t : Tree) : Ledger := ⟨t.size, ∅⟩

theorem build_empty (t : Tree) : empty.build t = (.ofTree 0 t, afterBuild t) := by
  simp [build_eq, empty, afterBuild, advance]

theorem verifyUnique_entries {s : Settings} {r : Recording} {t : Tree} {base : Nat}
    {l l' : Ledger} {es : List Entry} (hbase : base + t.size ≤ l.nextId)
    (h : l.entries s (.ofTree base t) r = (.ok es, l')) : verifyUnique es = .ok () := by
  obtain ⟨hnodup, hkeys⟩ := keys_entries h
  have hids := (entriesOf_ok h).1.ids
  rw [verifyUnique_eq_ok_iff, (ids_perm es).nodup_iff, hids]
  refine List.nodup_append'.2 ⟨hnodup, List.nodup_range', fun id hkey houtcome => ?_⟩
  have hnode : id ∈ List.range' base t.size := Arena.ids_ofTree base t ▸ hkeys hkey
  have h₁ := (List.mem_range'_1.1 hnode).2
  have h₂ := (List.mem_range'_1.1 houtcome).1
  omega

theorem projectLines_ok {s : Settings} {a : Arena} {r : Recording} {l l' : Ledger}
    {lines : LineHits} (h : l.projectLines s a r = (.ok lines, l')) :
    l' = { l with lines := ∅ } := by
  have hid := nextId_projectLines s a r l
  have hlines : l'.lines = ∅ := by
    unfold projectLines at h
    split at h
    · simp at h
    · simp only [Prod.mk.injEq] at h
      rw [← h.2]
      rfl
  rw [h] at hid
  cases l'
  simp_all

end Ledger

theorem Settings.analyse_eq (s : Settings) (unit : String) (t : Tree) (r : Recording) :
    s.analyse unit t r = (do
      s.validate
      let lines ← ((Ledger.afterBuild t).projectLines s (.ofTree 0 t) r).1.mapError
        (.recording unit)
      let branches ← ((Ledger.afterBuild t).entries s (.ofTree 0 t) r).1.mapError
        (.recording unit)
      return ⟨lines, branches, t.size⟩) := by
  unfold Settings.analyse
  refine bind_congr fun _ => ?_
  simp only [Ledger.build_empty, Ledger.report]
  split
  · next e l he =>
    rw [he]
    rfl
  · next lines l hlines =>
    obtain rfl := Ledger.projectLines_ok hlines
    rw [hlines]
    show _ = Except.bind (((Ledger.afterBuild t).entries s (.ofTree 0 t) r).1.mapError _) _
    have hledger : ({ Ledger.afterBuild t with lines := ∅ } : Ledger) = Ledger.afterBuild t := rfl
    rw [hledger]
    split
    · next e l he =>
      rw [he]
      rfl
    · next branches l hbranches =>
      -- the closing check cannot fail, so nothing depends on whether it is made
      have hunique := Ledger.verifyUnique_entries (Nat.zero_add _).le hbranches
      rw [hbranches, hunique, ite_self, Arena.size_ofTree]
      rfl

theorem Settings.analyse_eq_ok_iff {s : Settings} {unit : String} {t : Tree} {r : Recording}
    {p : Report} : s.analyse unit t r = .ok p ↔
      s.validate = .ok () ∧
        ((Ledger.afterBuild t).projectLines s (.ofTree 0 t) r).1 = .ok p.lines ∧
        ((Ledger.afterBuild t).entries s (.ofTree 0 t) r).1 = .ok p.branches ∧
        p.nodeCount = t.size := by
  rw [Settings.analyse_eq]
  simp only [bind_eq_ok_iff, mapError_eq_ok_iff]
  constructor
  · rintro ⟨_, hvalid, lines, hlines, branches, hbranches, hreport⟩
    obtain rfl := Except.ok.inj hreport
    exact ⟨hvalid, hlines, hbranches, rfl⟩
  · rintro ⟨hvalid, hlines, hbranches, hcount⟩
    refine ⟨(), hvalid, p.lines, hlines, p.branches, hbranches, ?_⟩
    rw [← hcount]
    rfl

end SyntaxCoverage
