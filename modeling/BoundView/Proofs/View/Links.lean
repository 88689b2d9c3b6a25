import BoundView.Proofs.View.Places

/-!
# Links between boundaries

A boundary names its parent, and the parent lists it.  The links of a stage agree with each other,
and boundaries that are added to it on behalf of an owner leave the old ones as they were and are
linked among themselves and to the owner.
-/

namespace BoundView.Stage

variable {s s' s'' : Stage} {id : BoundaryId} {b : Boundary} {owner? : Option BoundaryId}
  {ids others : List BoundaryId}

/-- No boundary has a number that was not given yet. -/
def Bounded (s : Stage) : Prop :=
  ∀ id b, s.boundary? id = some b → id ≤ s.lastId

/-- Parents and children know each other, and parents have lower numbers. -/
structure Linked (s : Stage) : Prop where
  bounded : s.Bounded
  child : ∀ id b c, s.boundary? id = some b → c ∈ b.children →
    id < c ∧ ∃ p, s.place? c = some p ∧ p.parent? = some id
  listed : ∀ id p parent, s.place? id = some p → p.parent? = some parent →
    ∃ b, s.boundary? parent = some b ∧ id ∈ b.children

theorem Linked.parent_lt (h : s.Linked) {p : Place} {parent : BoundaryId}
    (hp : s.place? id = some p) (hparent : p.parent? = some parent) : parent < id := by
  obtain ⟨b, hb, hmem⟩ := h.listed id p parent hp hparent
  exact (h.child parent b id hb hmem).1

/-! ## Boundaries that are added -/

/-- Whatever has a number stays as it is. -/
structure Extends (s s' : Stage) : Prop where
  models_eq : s'.live.models = s.live.models
  lastId_le : s.lastId ≤ s'.lastId
  boundary?_eq : ∀ id, id ≤ s.lastId → s'.boundary? id = s.boundary? id
  dependencies_eq : ∀ id, id ≤ s.lastId → s'.dependencies id = s.dependencies id

theorem Extends.refl (s : Stage) : Extends s s :=
  ⟨rfl, Nat.le_refl _, fun _ _ => rfl, fun _ _ => rfl⟩

theorem Extends.trans (h : Extends s s') (h' : Extends s' s'') : Extends s s'' where
  models_eq := h'.models_eq.trans h.models_eq
  lastId_le := Nat.le_trans h.lastId_le h'.lastId_le
  boundary?_eq id hid :=
    (h'.boundary?_eq id (Nat.le_trans hid h.lastId_le)).trans (h.boundary?_eq id hid)
  dependencies_eq id hid :=
    (h'.dependencies_eq id (Nat.le_trans hid h.lastId_le)).trans (h.dependencies_eq id hid)

theorem Extends.place?_eq_some (h : Extends s s') (hs : s.Bounded) {p : Place}
    (hp : s.place? id = some p) : s'.place? id = some p := by
  obtain ⟨b, hb, rfl⟩ := exists_boundary? hp
  rw [place?, h.boundary?_eq id (hs id b hb), hb]
  rfl

/-- How a boundary is linked that was added. -/
structure Sprout (s s' : Stage) (owner? : Option BoundaryId) (ids : List BoundaryId)
    (id : BoundaryId) (b : Boundary) : Prop where
  le_lastId : id ≤ s'.lastId
  child : ∀ c ∈ b.children, id < c ∧ ∃ p, s'.place? c = some p ∧ p.parent? = some id
  listed : (b.parent? = owner? ∧ id ∈ ids)
    ∨ ∃ parent b', b.parent? = some parent ∧ s.lastId < parent ∧ s'.boundary? parent = some b'
      ∧ id ∈ b'.children

/-- Boundaries were added on behalf of an owner, of which `ids` are its children. -/
structure Sprouts (s s' : Stage) (owner? : Option BoundaryId) (ids : List BoundaryId) : Prop
    extends Extends s s' where
  sprout : ∀ id b, s.lastId < id → s'.boundary? id = some b → Sprout s s' owner? ids id b

theorem Sprouts.refl (hs : s.Bounded) : Sprouts s s owner? [] where
  toExtends := .refl s
  sprout id b hid hb := absurd (hs id b hb) (Nat.not_le_of_lt hid)

theorem Sprouts.bounded (h : Sprouts s s' owner? ids) : s'.Bounded := by
  intro id b hb
  by_cases hid : id ≤ s.lastId
  · exact Nat.le_trans hid h.lastId_le
  · exact (h.sprout id b (Nat.lt_of_not_le hid) hb).le_lastId

theorem Sprout.extend {s₁ s₂ : Stage} (h : Sprout s s₁ owner? ids id b) (hextends : Extends s₁ s₂)
    (hs₁ : s₁.Bounded) : Sprout s s₂ owner? (ids ++ others) id b where
  le_lastId := Nat.le_trans h.le_lastId hextends.lastId_le
  child c hc := by
    obtain ⟨hlt, p, hp, hparent⟩ := h.child c hc
    exact ⟨hlt, p, hextends.place?_eq_some hs₁ hp, hparent⟩
  listed := by
    rcases h.listed with ⟨howner, hid⟩ | ⟨parent, b', hparent, hlt, hb', hmem⟩
    · exact .inl ⟨howner, List.mem_append_left others hid⟩
    · refine .inr ⟨parent, b', hparent, hlt, ?_, hmem⟩
      rw [hextends.boundary?_eq parent (hs₁ parent b' hb')]
      exact hb'

theorem Sprouts.trans {s₁ s₂ : Stage} (h : Sprouts s s₁ owner? ids)
    (h' : Sprouts s₁ s₂ owner? others) : Sprouts s s₂ owner? (ids ++ others) where
  toExtends := h.toExtends.trans h'.toExtends
  sprout id b hid hb := by
    by_cases hid₁ : id ≤ s₁.lastId
    -- What the first part added is left alone by the second one.
    · rw [h'.boundary?_eq id hid₁] at hb
      exact (h.sprout id b hid hb).extend h'.toExtends h.bounded
    · obtain ⟨hle, hchild, hlisted⟩ := h'.sprout id b (Nat.lt_of_not_le hid₁) hb
      refine ⟨hle, hchild, ?_⟩
      rcases hlisted with ⟨howner, hmem⟩ | ⟨parent, b', hparent, hlt, hrest⟩
      · exact .inl ⟨howner, List.mem_append_right ids hmem⟩
      · exact .inr ⟨parent, b', hparent, Nat.lt_of_le_of_lt h.lastId_le hlt, hrest⟩

end BoundView.Stage
