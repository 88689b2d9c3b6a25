import BoundView.Proofs.View.Places

/-!
# Boundaries that are dropped

Boundaries are dropped with everything beneath them and nothing else: whoever is left keeps its
record and its subscriptions, is listed by its parent, and lists children that are left as well.
-/

namespace BoundView.Stage

variable {s s' s'' : Stage} {id owner : BoundaryId} {kids : BoundaryId → List BoundaryId}
  {loose : List BoundaryId}

/-- Nothing but boundaries and what they depend on is missing. -/
structure Shrinks (s s' : Stage) : Prop where
  models_eq : s'.live.models = s.live.models
  lastId_eq : s'.lastId = s.lastId
  boundary? : ∀ id b, s'.boundary? id = some b → s.boundary? id = some b
  dependencies_eq : ∀ id b, s'.boundary? id = some b → s'.dependencies id = s.dependencies id

theorem Shrinks.refl (s : Stage) : Shrinks s s :=
  ⟨rfl, rfl, fun _ _ h => h, fun _ _ _ => rfl⟩

theorem Shrinks.trans (h : Shrinks s s') (h' : Shrinks s' s'') : Shrinks s s'' where
  models_eq := h'.models_eq.trans h.models_eq
  lastId_eq := h'.lastId_eq.trans h.lastId_eq
  boundary? id b hb := h.boundary? id b (h'.boundary? id b hb)
  dependencies_eq id b hb :=
    (h'.dependencies_eq id b hb).trans (h.dependencies_eq id b (h'.boundary? id b hb))

theorem boundary?_removeBoundary_self : (s.removeBoundary id).boundary? id = none :=
  IdMap.find?_erase_self id s.boundaries

theorem boundary?_removeBoundary_of_ne {other : BoundaryId} (h : other ≠ id) :
    (s.removeBoundary id).boundary? other = s.boundary? other :=
  IdMap.find?_erase_of_ne s.boundaries h

theorem shrinks_removeBoundary (s : Stage) (id : BoundaryId) : Shrinks s (s.removeBoundary id) where
  models_eq := rfl
  lastId_eq := rfl
  boundary? other b hb := by
    by_cases h : other = id
    · rw [h, boundary?_removeBoundary_self] at hb
      exact nomatch hb
    · rw [boundary?_removeBoundary_of_ne h] at hb
      exact hb
  dependencies_eq other b hb := by
    have h : other ≠ id := by
      rintro rfl
      rw [boundary?_removeBoundary_self] at hb
      exact nomatch hb
    show (IdMap.find? other (IdMap.erase id s.live.observers.subscriptions)).getD [] = _
    rw [IdMap.find?_erase_of_ne _ h]
    rfl

/-- Boundaries in a forest, where `kids` are the children of each and the loose ones have no parent
that lists them. -/
structure Forest (s : Stage) (kids : BoundaryId → List BoundaryId) (loose : List BoundaryId) :
    Prop where
  kid : ∀ id b c, s.boundary? id = some b → c ∈ kids id →
    c ∉ loose ∧ id < c ∧ ∃ p, s.place? c = some p ∧ p.parent? = some id
  listed : ∀ id p parent, s.place? id = some p → p.parent? = some parent →
    id ∈ loose ∨ ∃ b, s.boundary? parent = some b ∧ id ∈ kids parent

theorem place?_removeBoundary_of_ne {other : BoundaryId} (h : other ≠ id) :
    (s.removeBoundary id).place? other = s.place? other := by
  rw [place?, boundary?_removeBoundary_of_ne h, place?]

theorem ne_of_place?_removeBoundary {other : BoundaryId} {p : Place}
    (h : (s.removeBoundary id).place? other = some p) : other ≠ id := by
  rintro rfl
  rw [place?, boundary?_removeBoundary_self] at h
  cases h

/-- The children of a loose boundary become loose when it is taken away. -/
theorem Forest.removeBoundary {rest : List BoundaryId} (h : Forest s kids (id :: rest))
    {b : Boundary}
    (hb : s.boundary? id = some b) : Forest (s.removeBoundary id) kids (kids id ++ rest) where
  kid other b' c hother hc := by
    have hne : other ≠ id := ne_of_place?_removeBoundary (place?_of_boundary? hother)
    rw [boundary?_removeBoundary_of_ne hne] at hother
    obtain ⟨hloose, hlt, p, hp, hparent⟩ := h.kid other b' c hother hc
    have hcid : c ≠ id := fun heq => hloose (heq ▸ List.mem_cons_self)
    refine ⟨fun hmem => ?_, hlt, p, ?_, hparent⟩
    · rcases List.mem_append.1 hmem with hmem | hmem
      · obtain ⟨-, -, p', hp', hparent'⟩ := h.kid id b c hb hmem
        obtain rfl := Option.some.inj (hp.symm.trans hp')
        exact hne (Option.some.inj (hparent.symm.trans hparent'))
      · exact hloose (List.mem_cons_of_mem id hmem)
    · rw [place?_removeBoundary_of_ne hcid]
      exact hp
  listed other p parent hp hparent := by
    have hne := ne_of_place?_removeBoundary hp
    rw [place?_removeBoundary_of_ne hne] at hp
    rcases h.listed other p parent hp hparent with hloose | ⟨b', hb', hmem⟩
    · exact .inl (List.mem_append_right _ ((List.mem_cons.1 hloose).resolve_left hne))
    -- Whoever the removed boundary listed is loose from now on.
    · by_cases hparentId : parent = id
      · exact .inl (List.mem_append_left rest (hparentId ▸ hmem))
      · refine .inr ⟨b', ?_, hmem⟩
        rw [boundary?_removeBoundary_of_ne hparentId]
        exact hb'

theorem drop_nil : s.drop [] = s := by
  rw [drop]

theorem drop_cons_of_none {rest : List BoundaryId} (h : s.boundary? id = none) :
    s.drop (id :: rest) = s.drop rest := by
  rw [Stage.drop]
  split
  · rfl
  · rename_i b hb
    cases h.symm.trans hb

theorem drop_cons_of_some {rest : List BoundaryId} {b : Boundary}
    (h : s.boundary? id = some b) :
    s.drop (id :: rest) = (s.removeBoundary id).drop (b.children ++ rest) := by
  rw [Stage.drop]
  split
  · rename_i hnone
    cases hnone.symm.trans h
  · rename_i b' hb'
    obtain rfl := Option.some.inj (h.symm.trans hb')
    rfl

/-- Dropping what is loose leaves a forest without loose boundaries.  The owner of what was loose
has a lower number and so is kept, and with it all that were there before it. -/
theorem Forest.drop (h : Forest s kids loose)
    (hkids : ∀ id b, s.boundary? id = some b → id ≠ owner → b.children = kids id)
    (howner : ∀ id ∈ loose, owner < id) :
    Forest (s.drop loose) kids [] ∧ Shrinks s (s.drop loose)
      ∧ ∀ id, id ≤ owner → (s.drop loose).boundary? id = s.boundary? id := by
  induction s, loose using Stage.drop.induct with
  | case1 s =>
    rw [drop_nil]
    exact ⟨h, .refl s, fun _ _ => rfl⟩
  | case2 s id rest hnone ih =>
    rw [drop_cons_of_none hnone]
    -- What is not mounted any more was dropped with something above it.
    refine ih ⟨fun other b c hother hc => ?_, fun other p parent hp hparent => ?_⟩ hkids
      fun other hother => howner other (List.mem_cons_of_mem id hother)
    · obtain ⟨hloose, hrest⟩ := h.kid other b c hother hc
      exact ⟨fun hmem => hloose (List.mem_cons_of_mem id hmem), hrest⟩
    · refine (h.listed other p parent hp hparent).imp_left fun hloose => ?_
      refine (List.mem_cons.1 hloose).resolve_left fun heq => ?_
      obtain ⟨b, hb, -⟩ := exists_boundary? hp
      rw [heq, hnone] at hb
      cases hb
  | case3 s id rest b hb ih =>
    rw [drop_cons_of_some hb]
    have hid : owner < id := howner id List.mem_cons_self
    have hne : id ≠ owner := Nat.ne_of_gt hid
    have hchildren : b.children = kids id := hkids id b hb hne
    -- The children are dropped next, and they have higher numbers than the owner as well.
    have hforest : Forest (s.removeBoundary id) kids (b.children ++ rest) :=
      hchildren ▸ h.removeBoundary hb
    have hshrinks := shrinks_removeBoundary s id
    have hkids' : ∀ other b', (s.removeBoundary id).boundary? other = some b' → other ≠ owner →
        b'.children = kids other :=
      fun other b' hother => hkids other b' (hshrinks.boundary? other b' hother)
    have howner' : ∀ other ∈ b.children ++ rest, owner < other := by
      intro other hother
      rcases List.mem_append.1 hother with hother | hother
      · obtain ⟨-, hlt, -⟩ := h.kid id b other hb (hchildren ▸ hother)
        exact Nat.lt_trans hid hlt
      · exact howner other (List.mem_cons_of_mem id hother)
    obtain ⟨hdropped, hrest, hkept⟩ := ih hforest hkids' howner'
    refine ⟨hdropped, hshrinks.trans hrest, fun other hother => ?_⟩
    rw [hkept other hother]
    exact boundary?_removeBoundary_of_ne (Nat.ne_of_lt (Nat.lt_of_le_of_lt hother hid))

end BoundView.Stage
