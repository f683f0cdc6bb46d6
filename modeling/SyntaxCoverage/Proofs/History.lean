import Mathlib.Data.List.Count
import SyntaxCoverage.Proofs.Numbering

/-!
Histories of one ledger. Arenas are built, analysed and analysed again in any order, and a step that
fails may have taken ids all the same. Main statement: no id ever stands for two things.
-/

namespace SyntaxCoverage.Ledger

open Branch

/-- A use of a ledger. Arenas count in the order in which they were built, nodes by their place in
the arena. -/
inductive Action where
  | allocate
  | build (t : Tree)
  | enterLines (s : Settings) (arena : Nat) (r : Recording)
  | projectLines (s : Settings) (arena : Nat) (r : Recording)
  | entry (s : Settings) (arena node : Nat) (r : Recording)
  | entries (s : Settings) (arena : Nat) (r : Recording)

structure Listing where
  arena : Nat
  entries : List Entry
deriving DecidableEq

def Listing.keyIds (p : Listing) : List Nat := p.entries.map (·.key.id)

def Listing.outcomeIds (p : Listing) : List Nat := p.entries.flatMap Entry.outcomeIds

/-- A ledger and all that was made under it: ids allocated on their own, arenas, entries of single
nodes, and listings. -/
structure History where
  ledger : Ledger
  spares : List Nat
  arenas : List Arena
  singles : List Entry
  listings : List Listing

namespace History

def empty : History := ⟨.empty, [], [], [], []⟩

def withLedger (h : History) (l : Ledger) : History := { h with ledger := l }

def step (h : History) : Action → History
  | .allocate =>
    let (id, l) := h.ledger.allocate
    { h with ledger := l, spares := h.spares ++ [id] }
  | .build t =>
    let (a, l) := h.ledger.build t
    { h with ledger := l, arenas := h.arenas ++ [a] }
  | .enterLines s arena r =>
    match h.arenas[arena]? with
    | some a => h.withLedger (h.ledger.enterLines s a r).2
    | none => h
  | .projectLines s arena r =>
    match h.arenas[arena]? with
    | some a => h.withLedger (h.ledger.projectLines s a r).2
    | none => h
  | .entry s arena node r =>
    match h.arenas[arena]? with
    | some a =>
      match a.nodes[node]? with
      | some n =>
        match h.ledger.entry s a r n with
        | (.ok found, l) => { h with ledger := l, singles := h.singles ++ found.toList }
        | (.error _, l) => h.withLedger l
      | none => h
    | none => h
  | .entries s arena r =>
    match h.arenas[arena]? with
    | some a =>
      match h.ledger.entries s a r with
      | (.ok es, l) => { h with ledger := l, listings := h.listings ++ [⟨arena, es⟩] }
      | (.error _, l) => h.withLedger l
    | none => h

def run (actions : List Action) : History := actions.foldl step empty

def ids (h : History) : List Nat :=
  h.spares ++ (h.arenas.flatMap Arena.ids ++
    (h.singles.flatMap Entry.outcomeIds ++ h.listings.flatMap Listing.outcomeIds))

def Keyed (h : History) (p : Listing) : Prop :=
  p.keyIds.Nodup ∧ ∃ a, h.arenas[p.arena]? = some a ∧ p.keyIds ⊆ a.ids

structure Sound (h : History) : Prop where
  nodup : h.ids.Nodup
  below : ∀ id ∈ h.ids, id < h.ledger.nextId
  laidOut : ∀ a ∈ h.arenas, ∃ base t, a = .ofTree base t
  keyed : ∀ p ∈ h.listings, h.Keyed p

theorem sound_empty : empty.Sound where
  nodup := by simp [ids, empty]
  below := by simp [ids, empty]
  laidOut := by simp [empty]
  keyed := by simp [empty]

variable {h h' : History}

/-- All that a step may do with ids: give out some that no one has, and skip others. -/
structure Extends (h h' : History) (fresh : List Nat) : Prop where
  ids : h'.ids.Perm (h.ids ++ fresh)
  nodup : fresh.Nodup
  unused : ∀ id ∈ fresh, h.ledger.nextId ≤ id
  below : ∀ id ∈ fresh, id < h'.ledger.nextId
  ledger : h.ledger.nextId ≤ h'.ledger.nextId

theorem Extends.nodup_ids {fresh : List Nat} (hx : Extends h h' fresh) (hs : h.Sound) :
    h'.ids.Nodup := by
  refine hx.ids.nodup_iff.2 (List.nodup_append'.2 ⟨hs.nodup, hx.nodup, fun id hold hnew => ?_⟩)
  have h₁ := hs.below id hold
  have h₂ := hx.unused id hnew
  omega

theorem Extends.below_ids {fresh : List Nat} (hx : Extends h h' fresh) (hs : h.Sound) :
    ∀ id ∈ h'.ids, id < h'.ledger.nextId := by
  intro id hid
  rcases List.mem_append.1 (hx.ids.subset hid) with hold | hnew
  · exact (hs.below id hold).trans_le hx.ledger
  · exact hx.below id hnew

theorem Sound.withLedger (hs : h.Sound) {l : Ledger} (hl : h.ledger.nextId ≤ l.nextId) :
    (h.withLedger l).Sound where
  nodup := hs.nodup
  below id hid := (hs.below id hid).trans_le hl
  laidOut := hs.laidOut
  keyed := hs.keyed

theorem extends_range' {k : Nat} (hids : h'.ids.Perm (h.ids ++ List.range' h.ledger.nextId k))
    (hledger : h'.ledger.nextId = h.ledger.nextId + k) :
    Extends h h' (List.range' h.ledger.nextId k) where
  ids := hids
  nodup := List.nodup_range'
  unused id hid := (List.mem_range'_1.1 hid).1
  below id hid := by
    rw [hledger]
    exact (List.mem_range'_1.1 hid).2
  ledger := by
    rw [hledger]
    exact Nat.le_add_right ..

theorem sound_step_allocate (hs : h.Sound) : (h.step .allocate).Sound := by
  have hx : Extends h (h.step .allocate) (List.range' h.ledger.nextId 1) := by
    refine extends_range' ?_ rfl
    refine List.perm_iff_count.2 fun id => ?_
    simp only [step, allocate, ids, List.count_append, List.range'_one]
    omega
  exact ⟨hx.nodup_ids hs, hx.below_ids hs, hs.laidOut, hs.keyed⟩

theorem sound_step_build (hs : h.Sound) (t : Tree) : (h.step (.build t)).Sound := by
  let built : History := { h with
    ledger := h.ledger.advance t.size
    arenas := h.arenas ++ [.ofTree h.ledger.nextId t] }
  have hstep : h.step (.build t) = built := by rw [step, build_eq]
  rw [hstep]
  have hx : Extends h built (List.range' h.ledger.nextId t.size) := by
    refine extends_range' ?_ rfl
    refine List.perm_iff_count.2 fun id => ?_
    simp only [built, ids, List.flatMap_append, List.flatMap_singleton, Arena.ids_ofTree,
      List.count_append]
    omega
  refine ⟨hx.nodup_ids hs, hx.below_ids hs, ?_, fun p hp => ?_⟩
  · intro a ha
    rcases List.mem_append.1 ha with ha | ha
    · exact hs.laidOut a ha
    · exact ⟨_, _, List.mem_singleton.1 ha⟩
  · obtain ⟨hnodup, a, ha, hkeys⟩ := hs.keyed p hp
    refine ⟨hnodup, a, ?_, hkeys⟩
    have hlt : p.arena < h.arenas.length := (List.getElem?_eq_some_iff.1 ha).1
    exact (List.getElem?_append_left hlt).trans ha

theorem sound_step_entry (hs : h.Sound) (s : Settings) (arena node : Nat) (r : Recording) :
    (h.step (.entry s arena node r)).Sound := by
  rw [step]
  split
  · next a ha =>
    split
    · next n hn =>
      split
      · next found l hfound =>
        have hnumbers := (entry_ok hfound).1
        have hx : Extends h { h with ledger := l, singles := h.singles ++ found.toList }
            (List.range' h.ledger.nextId (totalOutcomes found.toList)) := by
          refine extends_range' ?_ (congrArg nextId hnumbers.ledger)
          refine List.perm_iff_count.2 fun id => ?_
          simp only [ids, List.flatMap_append, List.count_append, hnumbers.ids]
          omega
        exact ⟨hx.nodup_ids hs, hx.below_ids hs, hs.laidOut, hs.keyed⟩
      · next e l he =>
        -- an entry takes its ids only once all its counts are known
        rw [entry_error he]
        exact hs
    · exact hs
  · exact hs

theorem sound_step_entries (hs : h.Sound) (s : Settings) (arena : Nat) (r : Recording) :
    (h.step (.entries s arena r)).Sound := by
  rw [step]
  split
  · next a ha =>
    split
    · next es l hes =>
      have hnumbers := (entriesOf_ok hes).1
      have hx : Extends h { h with ledger := l, listings := h.listings ++ [⟨arena, es⟩] }
          (List.range' h.ledger.nextId (totalOutcomes es)) := by
        refine extends_range' ?_ (congrArg nextId hnumbers.ledger)
        refine List.perm_iff_count.2 fun id => ?_
        simp only [ids, List.flatMap_append, List.flatMap_singleton, List.count_append,
          Listing.outcomeIds, hnumbers.ids]
        omega
      refine ⟨hx.nodup_ids hs, hx.below_ids hs, hs.laidOut, fun p hp => ?_⟩
      rcases List.mem_append.1 hp with hp | hp
      · exact hs.keyed p hp
      · obtain rfl := List.mem_singleton.1 hp
        obtain ⟨base, t, rfl⟩ := hs.laidOut a (List.mem_of_getElem? ha)
        obtain ⟨hnodup, hkeys⟩ := keys_entries hes
        exact ⟨hnodup, _, ha, hkeys⟩
    · next e l he =>
      -- the entries before the failure have taken ids that nothing returned will show
      have hle := nextId_le_entriesOf s a r (a.walkAllBranches .post) h.ledger
      rw [← entries, he] at hle
      exact hs.withLedger hle
  · exact hs

theorem Sound.step (hs : h.Sound) (action : Action) : (h.step action).Sound := by
  cases action with
  | allocate => exact sound_step_allocate hs
  | build t => exact sound_step_build hs t
  | enterLines s arena r =>
    rw [History.step]
    split
    · exact hs.withLedger (nextId_enterNodes ..).ge
    · exact hs
  | projectLines s arena r =>
    rw [History.step]
    split
    · exact hs.withLedger (nextId_projectLines ..).ge
    · exact hs
  | entry s arena node r => exact sound_step_entry hs s arena node r
  | entries s arena r => exact sound_step_entries hs s arena r

theorem sound_run (actions : List Action) : (run actions).Sound := by
  have hfold : ∀ h : History, h.Sound → (actions.foldl History.step h).Sound := by
    induction actions with
    | nil => exact fun h hs => hs
    | cons action actions ih => exact fun h hs => ih (h.step action) (hs.step action)
  exact hfold empty sound_empty

theorem Sound.disjoint_arenas (hs : h.Sound) {i j : Nat} {a b : Arena}
    (ha : h.arenas[i]? = some a) (hb : h.arenas[j]? = some b) (hij : i ≠ j) :
    a.ids.Disjoint b.ids := by
  have hnodup : (h.arenas.flatMap Arena.ids).Nodup :=
    (List.nodup_append.1 (List.nodup_append.1 hs.nodup).2.1).1
  have hpairwise := (List.nodup_flatMap.1 hnodup).2
  obtain ⟨hi, rfl⟩ := List.getElem?_eq_some_iff.1 ha
  obtain ⟨hj, rfl⟩ := List.getElem?_eq_some_iff.1 hb
  rcases Nat.lt_or_gt_of_ne hij with hlt | hlt
  · exact List.pairwise_iff_getElem.1 hpairwise i j hi hj hlt
  · exact List.disjoint_symm (List.pairwise_iff_getElem.1 hpairwise j i hj hi hlt)

theorem Sound.nodup_listings (hs : h.Sound) :
    (h.listings.flatMap Listing.outcomeIds).Nodup :=
  (List.nodup_append.1 (List.nodup_append.1 (List.nodup_append.1 hs.nodup).2.1).2.1).2.1

theorem Sound.disjoint_listings (hs : h.Sound) {p q : Listing} (hp : p ∈ h.listings)
    (hq : q ∈ h.listings) (hpq : p ≠ q) : p.outcomeIds.Disjoint q.outcomeIds := by
  have hpairwise := (List.nodup_flatMap.1 hs.nodup_listings).2
  have : Std.Symm (Function.onFun List.Disjoint Listing.outcomeIds) :=
    ⟨fun _ _ hdisjoint => List.disjoint_symm hdisjoint⟩
  exact hpairwise.forall hp hq hpq

theorem Sound.disjoint_keys_outcomes (hs : h.Sound) {p q : Listing} (hp : p ∈ h.listings)
    (hq : q ∈ h.listings) : p.keyIds.Disjoint q.outcomeIds := by
  have hdisjoint := (List.nodup_append'.1 (List.nodup_append'.1 hs.nodup).2.1).2.2
  obtain ⟨-, a, ha, hkeys⟩ := hs.keyed p hp
  intro id hkey houtcome
  refine hdisjoint (List.mem_flatMap.2 ⟨a, List.mem_of_getElem? ha, hkeys hkey⟩) ?_
  exact List.mem_append_right _ (List.mem_flatMap.2 ⟨q, hq, houtcome⟩)

theorem Sound.verifyUnique (hs : h.Sound) {picked : List Listing}
    (hmem : ∀ p ∈ picked, p ∈ h.listings) (hnodup : (picked.map (·.arena)).Nodup) :
    verifyUnique (picked.flatMap (·.entries)) = .ok () := by
  have harenas : picked.Pairwise fun p q => p.arena ≠ q.arena := List.pairwise_map.1 hnodup
  rw [verifyUnique_eq_ok_iff, (ids_perm _).nodup_iff, List.map_flatMap, List.flatMap_assoc]
  refine List.nodup_append'.2 ⟨?_, ?_, ?_⟩
  · refine List.nodup_flatMap.2 ⟨fun p hp => (hs.keyed p (hmem p hp)).1, ?_⟩
    refine harenas.imp_of_mem fun {p q} hp hq hne id hid hid' => ?_
    obtain ⟨-, a, ha, hkeys⟩ := hs.keyed p (hmem p hp)
    obtain ⟨-, b, hb, hkeys'⟩ := hs.keyed q (hmem q hq)
    exact hs.disjoint_arenas ha hb hne (hkeys hid) (hkeys' hid')
  · refine List.nodup_flatMap.2 ⟨fun p hp => ?_, ?_⟩
    · exact (List.nodup_flatMap.1 hs.nodup_listings).1 p (hmem p hp)
    · refine harenas.imp_of_mem fun {p q} hp hq hne => ?_
      exact hs.disjoint_listings (hmem p hp) (hmem q hq) fun heq => hne (heq ▸ rfl)
  · intro id hkey houtcome
    obtain ⟨p, hp, hkey⟩ := List.mem_flatMap.1 hkey
    obtain ⟨q, hq, houtcome⟩ := List.mem_flatMap.1 houtcome
    exact hs.disjoint_keys_outcomes (hmem p hp) (hmem q hq) hkey houtcome

/-- No id stands for two things: those of all nodes, of all outcomes and all spare ones differ,
whatever failed in between. So the branches of different arenas stay apart when put together. -/
theorem run_ids_unique (actions : List Action) :
    (run actions).ids.Nodup ∧ (∀ id ∈ (run actions).ids, id < (run actions).ledger.nextId) ∧
      ∀ picked : List Listing, (∀ p ∈ picked, p ∈ (run actions).listings) →
        (picked.map (·.arena)).Nodup →
          verifyUnique (picked.flatMap (·.entries)) = .ok () := by
  have hs := sound_run actions
  exact ⟨hs.nodup, hs.below, fun picked hmem hnodup => hs.verifyUnique hmem hnodup⟩

def bareConditional (line : Nat) : Tree :=
  let span (width : Nat) : Span := ⟨⟨0, width⟩, ⟨line, 0⟩, ⟨line, width⟩⟩
  .node "if" [.tree (.node "int" [] (some ⟨span 1, none⟩))] (some ⟨span 4, none⟩)

def crossedActions : List Action :=
  let counted : Recording := ⟨fun _ => .ok (some 1), fun _ => .ok none⟩
  let broken : Recording := ⟨fun _ => .error (.unreadable "lost"), fun _ => .ok none⟩
  [.build (bareConditional 1), .allocate, .build (bareConditional 2),
    .entries .default 1 counted, .entries .default 0 broken, .entry .default 0 0 counted,
    .projectLines .default 1 counted, .entries .default 0 counted]

theorem run_ids_unique_crossed :
    let h := run crossedActions
    (h.listings.map (·.arena) = [1, 0] ∧ h.ids.length = 11) ∧
      (∀ p ∈ h.listings.reverse, p ∈ h.listings) ∧
        (h.listings.reverse.map (·.arena)).Nodup ∧
          verifyUnique (h.listings.reverse.flatMap (·.entries)) = .ok () :=
  have hmem : ∀ p ∈ (run crossedActions).listings.reverse, p ∈ (run crossedActions).listings :=
    fun _ hp => List.mem_reverse.1 hp
  have hnodup : ((run crossedActions).listings.reverse.map (·.arena)).Nodup := by decide +kernel
  ⟨by decide +kernel, hmem, hnodup, (run_ids_unique crossedActions).2.2 _ hmem hnodup⟩

end History

end SyntaxCoverage.Ledger
