import BoundView.Proofs.View.Spawning

/-!
# Links of a boundary that is rendered again

The body of a boundary that is rendered again asks for children, some of which it had before.  The
others are dropped with all that is beneath them.  Main statement: whoever is left then is as it
was, and the links of a stage agree with each other again.
-/

namespace BoundView.Stage

variable {s s₁ s₂ : Stage} {id : BoundaryId} {b : Boundary} {ids : List BoundaryId}

theorem bounded_opened (hs : s.Bounded) : (s.opened id).Bounded := by
  intro c b hb
  obtain ⟨b', hb', -⟩ := exists_boundary? (place?_opened.symm.trans (place?_of_boundary? hb))
  exact hs c b' hb'

/-- The children of each boundary, where those of one are known already. -/
def kidsBut (s : Stage) (id : BoundaryId) (ids : List BoundaryId) (c : BoundaryId) :
    List BoundaryId :=
  if c = id then ids else s.children c

theorem kidsBut_self : s.kidsBut id ids id = ids :=
  if_pos rfl

theorem kidsBut_of_ne {c : BoundaryId} (hne : c ≠ id) (hb : s.boundary? c = some b) :
    s.kidsBut id ids c = b.children := by
  rw [kidsBut, if_neg hne, children, hb]
  rfl

/-- The stage after the body of a boundary was run again, before anything is dropped. -/
structure Regrown (s s₁ : Stage) (id : BoundaryId) (b : Boundary) (ids : List BoundaryId) :
    Prop where
  linked : s.Linked
  boundary? : s.boundary? id = some b
  sprouts : Sprouts (s.opened id) s₁ (some id) ids
  origin : ∀ c ∈ ids, c ∈ b.children
    ∨ s.lastId < c ∧ ∃ p, s₁.place? c = some p ∧ p.parent? = some id

/-- A stage after one of its boundaries was closed as `b`: what else is left is as it was, and the
children of whoever is left are left as well. -/
structure Closed (s₁ s₂ : Stage) (id : BoundaryId) (b : Boundary) (reads : List Dependency) :
    Prop where
  models_eq : s₂.live.models = s₁.live.models
  lastId_eq : s₂.lastId = s₁.lastId
  boundary?_self : s₂.boundary? id = some b
  known : ∀ d ∈ reads, d ∈ s₂.dependencies id
  place?_of_le : ∀ c, c ≤ id → s₂.place? c = s₁.place? c
  place? : ∀ c p, s₂.place? c = some p → s₁.place? c = some p
  left : ∀ c b', c ≠ id → s₂.boundary? c = some b' →
    s₁.boundary? c = some b' ∧ s₂.dependencies c = s₁.dependencies c
  kid : ∀ c b' kid p, s₂.boundary? c = some b' → kid ∈ b'.children → s₁.place? kid = some p →
    s₂.place? kid = some p
  listed : ∀ c p parent, s₂.place? c = some p → p.parent? = some parent →
    ∃ b', s₂.boundary? parent = some b' ∧ c ∈ b'.children

namespace Regrown

theorem bounded (h : Regrown s s₁ id b ids) : s.Bounded :=
  h.linked.bounded

theorem le_lastId (h : Regrown s s₁ id b ids) : id ≤ s.lastId :=
  h.bounded id b h.boundary?

theorem place?_eq_some (h : Regrown s s₁ id b ids) {c : BoundaryId} {p : Place}
    (hp : s.place? c = some p) : s₁.place? c = some p :=
  h.sprouts.place?_eq_some (bounded_opened h.bounded) (place?_opened.trans hp)

theorem place?_of_le (h : Regrown s s₁ id b ids) {c : BoundaryId} (hc : c ≤ s.lastId) :
    s₁.place? c = s.place? c := by
  rw [Stage.place?, h.sprouts.boundary?_eq c hc]
  exact place?_opened

theorem boundary?_of_ne (h : Regrown s s₁ id b ids) {c : BoundaryId} {b' : Boundary}
    (hne : c ≠ id) (hb' : s.boundary? c = some b') : s₁.boundary? c = some b' := by
  rw [h.sprouts.boundary?_eq c (h.bounded c b' hb'), opened, boundary?_modifyBoundary_of_ne _ hne]
  exact hb'

theorem boundary?_self (h : Regrown s s₁ id b ids) :
    s₁.boundary? id = some { b with children := [] } := by
  rw [h.sprouts.boundary?_eq id h.le_lastId, opened, boundary?_modifyBoundary_self, h.boundary?]
  rfl

/-- Every other boundary that is there is an old one as it was, or a new one. -/
theorem old_or_new (h : Regrown s s₁ id b ids) {c : BoundaryId} {b' : Boundary} (hne : c ≠ id)
    (hb' : s₁.boundary? c = some b') :
    (s.boundary? c = some b' ∧ s₁.dependencies c = s.dependencies c) ∨ s.lastId < c := by
  by_cases hc : c ≤ s.lastId
  · rw [h.sprouts.boundary?_eq c hc, opened, boundary?_modifyBoundary_of_ne _ hne] at hb'
    exact .inl ⟨hb', h.sprouts.dependencies_eq c hc⟩
  · exact .inr (Nat.lt_of_not_le hc)

/-- The place of a former child. -/
theorem place?_child (h : Regrown s s₁ id b ids) {c : BoundaryId} (hc : c ∈ b.children) :
    c ≤ s.lastId ∧ id < c ∧ ∃ p, s₁.place? c = some p ∧ p.parent? = some id := by
  obtain ⟨hlt, p, hp, hparent⟩ := h.linked.child id b c h.boundary? hc
  obtain ⟨b', hb', -⟩ := exists_boundary? hp
  exact ⟨h.bounded c b' hb', hlt, p, h.place?_eq_some hp, hparent⟩

theorem child (h : Regrown s s₁ id b ids) {c kid : BoundaryId} {b' : Boundary} (hne : c ≠ id)
    (hb' : s₁.boundary? c = some b') (hkid : kid ∈ b'.children) :
    c < kid ∧ ∃ p, s₁.place? kid = some p ∧ p.parent? = some c := by
  rcases h.old_or_new hne hb' with ⟨hold, -⟩ | hlt
  · obtain ⟨hlt, p, hp, hparent⟩ := h.linked.child c b' kid hold hkid
    exact ⟨hlt, p, h.place?_eq_some hp, hparent⟩
  · exact (h.sprouts.sprout c b' hlt hb').child kid hkid

/-- What is asked for again, and what is loose because it is not. -/
theorem forest (h : Regrown s s₁ id b ids) :
    Forest s₁ (s₁.kidsBut id ids) (b.children.filter fun c => !ids.contains c) where
  kid c b' kid hb' hkid := by
    by_cases hne : c = id
    · subst hne
      rw [kidsBut_self] at hkid
      refine ⟨fun hmem => ?_, ?_⟩
      · have hnot := (List.mem_filter.1 hmem).2
        rw [List.contains_iff_mem.2 hkid] at hnot
        exact nomatch hnot
      · rcases h.origin kid hkid with hold | ⟨hlt, hplace⟩
        · exact (h.place?_child hold).2
        · exact ⟨Nat.lt_of_le_of_lt h.le_lastId hlt, hplace⟩
    · rw [kidsBut_of_ne hne hb'] at hkid
      obtain ⟨hlt, p, hp, hparent⟩ := h.child hne hb' hkid
      refine ⟨fun hmem => ?_, hlt, p, hp, hparent⟩
      -- A loose boundary was a child of the one that is rendered again, so nobody else lists it.
      obtain ⟨-, -, p', hp', hparent'⟩ := h.place?_child (List.mem_filter.1 hmem).1
      obtain rfl := Option.some.inj (hp.symm.trans hp')
      exact hne (Option.some.inj (hparent.symm.trans hparent'))
  listed c p parent hp hparent := by
    -- An old boundary is listed where it was or is loose; a new one by whoever asked for it.
    by_cases hc : c ≤ s.lastId
    · rw [h.place?_of_le hc] at hp
      obtain ⟨b', hb', hmem⟩ := h.linked.listed c p parent hp hparent
      by_cases hid : parent = id
      · subst hid
        obtain rfl := Option.some.inj (h.boundary?.symm.trans hb')
        by_cases hids : c ∈ ids
        · exact .inr ⟨_, h.boundary?_self, kidsBut_self ▸ hids⟩
        · exact .inl (List.mem_filter.2 ⟨hmem, by simpa using hids⟩)
      · have hb₁ : s₁.boundary? parent = some b' := h.boundary?_of_ne hid hb'
        exact .inr ⟨b', hb₁, kidsBut_of_ne hid hb₁ ▸ hmem⟩
    · obtain ⟨b', hb', rfl⟩ := exists_boundary? hp
      have hlt := Nat.lt_of_not_le hc
      rcases (h.sprouts.sprout c b' hlt hb').listed with ⟨howner, hids⟩ |
        ⟨_, b'', hparent', hlt', hb'', hmem⟩
      · obtain rfl := Option.some.inj (hparent.symm.trans howner)
        exact .inr ⟨_, h.boundary?_self, kidsBut_self ▸ hids⟩
      · obtain rfl := Option.some.inj (hparent.symm.trans hparent')
        have hid : parent ≠ id := Nat.ne_of_gt (Nat.lt_of_le_of_lt h.le_lastId hlt')
        exact .inr ⟨b'', hb'', kidsBut_of_ne hid hb'' ▸ hmem⟩

theorem closed (h : Regrown s s₁ id b ids) (reads : List Dependency) (out : Rendered) :
    Closed s₁ (((s₁.settle id reads).drop (b.children.filter fun c => !ids.contains c)).close id ids
      out) id (b.closed ids out) reads := by
  have hforest : Forest (s₁.settle id reads) (s₁.kidsBut id ids)
      (b.children.filter fun c => !ids.contains c) := ⟨h.forest.kid, h.forest.listed⟩
  -- All that is loose has a higher number than the boundary that is rendered again.
  obtain ⟨hdropped, hshrinks, hkept⟩ := hforest.drop
    (fun c b' hb' hne => (kidsBut_of_ne hne hb').symm)
    fun c hc => (h.place?_child (List.mem_filter.1 hc).1).2.1
  generalize (s₁.settle id reads).drop (b.children.filter fun c => !ids.contains c) = s₂
    at hdropped hshrinks hkept ⊢
  have hself₂ : s₂.boundary? id = some { b with children := [] } :=
    (hkept id (Nat.le_refl id)).trans h.boundary?_self
  have hself : (s₂.close id ids out).boundary? id = some (b.closed ids out) :=
    boundary?_close_self (b := { b with children := [] }) hself₂
  have hother : ∀ c, c ≠ id → (s₂.close id ids out).boundary? c = s₂.boundary? c :=
    fun c hne => boundary?_close_of_ne hne
  have hplace : ∀ c p, s₂.place? c = some p → s₁.place? c = some p := by
    intro c p hp
    obtain ⟨b', hb', rfl⟩ := exists_boundary? hp
    exact place?_of_boundary? (hshrinks.boundary? c b' hb')
  -- The children of a boundary that is left, as the forest knows them.
  have hkids : ∀ c b', (s₂.close id ids out).boundary? c = some b' →
      b'.children = s₁.kidsBut id ids c ∧ ∃ b'', s₂.boundary? c = some b'' := by
    intro c b' hb'
    by_cases hne : c = id
    · subst hne
      obtain rfl := Option.some.inj (hself.symm.trans hb')
      exact ⟨kidsBut_self.symm, _, hself₂⟩
    · rw [hother c hne] at hb'
      exact ⟨(kidsBut_of_ne hne (hshrinks.boundary? c b' hb')).symm, b', hb'⟩
  refine ⟨hshrinks.models_eq, hshrinks.lastId_eq, hself, fun d hd => ?_, fun c hc => ?_,
    fun c p hp => ?_,
    fun c b' hne hb' => ?_, fun c b' kid p hb' hkid hp => ?_, fun c p parent hp hparent => ?_⟩
  · show d ∈ s₂.dependencies id
    rw [hshrinks.dependencies_eq id _ hself₂]
    exact mem_dependencies_settle.2 hd
  · rw [place?_close, Stage.place?, hkept c hc]
    rfl
  · exact hplace c p (place?_close ▸ hp)
  · rw [hother c hne] at hb'
    exact ⟨hshrinks.boundary? c b' hb', (hshrinks.dependencies_eq c b' hb').trans
      (dependencies_settle_of_ne hne)⟩
  · obtain ⟨hchildren, b'', hb''⟩ := hkids c b' hb'
    obtain ⟨-, -, p', hp', -⟩ := hdropped.kid c b'' kid hb'' (hchildren ▸ hkid)
    obtain rfl := Option.some.inj ((hplace kid p' hp').symm.trans hp)
    exact place?_close.trans hp'
  · rcases hdropped.listed c p parent (place?_close ▸ hp) hparent with hnone | ⟨b', hb', hmem⟩
    · exact absurd hnone List.not_mem_nil
    · by_cases hne : parent = id
      · subst hne
        rw [kidsBut_self] at hmem
        exact ⟨_, hself, hmem⟩
      · refine ⟨b', (hother parent hne).trans hb', ?_⟩
        exact kidsBut_of_ne hne (hshrinks.boundary? parent b' hb') ▸ hmem

/-- The links agree with each other again. -/
theorem linked_closed (h : Regrown s s₁ id b ids) {reads : List Dependency} {out : Rendered}
    (hclosed : Closed s₁ s₂ id (b.closed ids out) reads) : s₂.Linked where
  bounded c b' hb' := by
    obtain ⟨b'', hb'', -⟩ := exists_boundary? (hclosed.place? c _ (place?_of_boundary? hb'))
    rw [hclosed.lastId_eq]
    exact h.sprouts.bounded c b'' hb''
  child c b' kid hb' hkid := by
    have hkid₁ : c < kid ∧ ∃ p, s₁.place? kid = some p ∧ p.parent? = some c := by
      by_cases hne : c = id
      · subst hne
        obtain rfl := Option.some.inj (hclosed.boundary?_self.symm.trans hb')
        have hmem : kid ∈ s₁.kidsBut c ids c := by
          rw [kidsBut_self]
          exact hkid
        -- Its children are those that it asked for, kept or new.
        exact (h.forest.kid c _ kid h.boundary?_self hmem).2
      · exact h.child hne (hclosed.left c b' hne hb').1 hkid
    obtain ⟨hlt, p, hp, hparent⟩ := hkid₁
    exact ⟨hlt, p, hclosed.kid c b' kid p hb' hkid hp, hparent⟩
  listed := hclosed.listed

end Regrown

end BoundView.Stage
